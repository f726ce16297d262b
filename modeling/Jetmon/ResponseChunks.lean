import Jetmon.HttpVerdict

/-! One response of a site as the veriflier's socket delivers it, in chunks. Only the chunk
that gives a code is looked at. -/
namespace ResponseChunks

open TextSearch
open NumberText
open HostValues
open HttpVerdict

/-- What became of the check when a connection has been read. -/
inductive Decision where
  | waits
  | finishes
  | redirects (target : Target)
  deriving DecidableEq, Repr

structure Reading where
  code : ℤ
  decision : Decision
  deriving DecidableEq, Repr

variable (qt : Qt) (maxRedirects : ℕ)

/-- The readyRead signals of one connection. A redirect closes its socket, and with a code that
is not zero further signals change nothing. -/
def reading (c : RemoteChecker) : List (List ℕ) → Reading
  | [] => ⟨c.responseCode, .waits⟩
  | data :: chunks =>
    let c' := c.readyRead qt maxRedirects data
    if c'.connecting then ⟨(c.parseResponseCode qt data).responseCode, .redirects c'.target⟩
    else if c'.finished then ⟨c'.responseCode, .finishes⟩
    else reading c' chunks

def connected (target : Target) (redirects : ℕ) : RemoteChecker :=
  { target := target, response := [], responseCode := 0, redirects := redirects
    connecting := false, finished := false }

def Ascii (bytes : List ℕ) : Prop := ∀ b ∈ bytes, 0 < b ∧ b < 128

/-- A response that begins with a version, a space, a code of three digits and the space that
is in front of a reason, also of an empty one. -/
structure Response where
  version : List ℕ
  digits : List ℕ
  rest : List ℕ
  version_length : version.length = 8
  version_plain : space ∉ version
  digits_length : digits.length = 3
  digits_all : digits.all isDigit = true
  version_ascii : Ascii version
  rest_ascii : Ascii rest

def Response.text (r : Response) : List ℕ := r.version ++ space :: (r.digits ++ space :: r.rest)

def Response.code (r : Response) : ℕ := value r.digits

def Located (text : List ℕ) : Prop :=
  ∃ i : ℕ, find locationHeader (text.map tolower) = i ∧ crlf <:+: text.drop (i + 10)

/-- The first chunk reaches the end of the code, and where a redirect is to be followed it holds
the Location line, if there is one. For a code of zero no later chunk gives another code. -/
structure Decides (r : Response) (redirects : ℕ) (cut : Cut r.text) : Prop where
  code : 12 ≤ cut.first.length
  location : IsRedirect r.code → redirects < maxRedirects → Located r.text → Located cut.first
  zero : r.code = 0 → ∀ chunk ∈ cut.later, statusVeriflier chunk = 0

def locationIn (text : List ℕ) : Option (List ℕ) :=
  (afterLocation (List.map tolower) text).map fun rest =>
    rest.take (clip (find crlf rest) rest.length)

theorem afterLocation_eq {text : List ℕ} {i : ℕ}
    (hi : find locationHeader (text.map tolower) = i) :
    afterLocation (List.map tolower) text =
      if find crlf (text.drop (i + 10)) = ⊤ then none else some (text.drop (i + 10)) := by
  have hrest : substr (i + 10) (text.length - (i + 10)) text = text.drop (i + 10) := by
    rw [substr, List.take_of_length_le (by rw [List.length_drop])]
  simp only [afterLocation, hi]
  change (if find crlf (substr (i + 10) (text.length - (i + 10)) text) = ⊤ then none
    else some (substr (i + 10) (text.length - (i + 10)) text)) = _
  rw [hrest]

theorem afterLocation_none {text : List ℕ} (hi : find locationHeader (text.map tolower) = ⊤) :
    afterLocation (List.map tolower) text = none := by
  simp only [afterLocation, hi]

theorem locationIn_isSome {text : List ℕ} : (locationIn text).isSome = true ↔ Located text := by
  rw [locationIn, Option.isSome_map, Located]
  cases hi : find locationHeader (text.map tolower) with
  | top =>
    rw [afterLocation_none hi]
    refine iff_of_false (by simp) ?_
    rintro ⟨i, h, -⟩
    exact absurd h WithTop.top_ne_coe
  | coe i =>
    rw [afterLocation_eq hi]
    by_cases hend : find crlf (text.drop (i + 10)) = ⊤
    · rw [if_pos hend]
      refine iff_of_false (by simp) ?_
      rintro ⟨j, hj, hcrlf⟩
      obtain rfl : i = j := WithTop.coe_injective hj
      exact find_eq_top.mp hend hcrlf
    · rw [if_neg hend]
      exact iff_of_true rfl ⟨i, rfl, not_not.mp (mt find_eq_top.mpr hend)⟩

/-- More text does not change a Location line that is complete. -/
theorem locationIn_append {text location : List ℕ} (h : locationIn text = some location)
    (more : List ℕ) : locationIn (text ++ more) = some location := by
  cases hi : find locationHeader (text.map tolower) with
  | top =>
    rw [locationIn, afterLocation_none hi] at h
    contradiction
  | coe i =>
    have hle : i + 10 ≤ text.length := by
      have hpre := (prefix_of_find hi).length_le
      have hten : locationHeader.length = 10 := rfl
      have hbound := find_le hi
      rw [List.length_drop, List.length_map, hten] at hpre
      rw [List.length_map] at hbound
      omega
    have hi' : find locationHeader ((text ++ more).map tolower) = i := by
      rw [List.map_append]
      exact find_append hi _
    have hdrop : (text ++ more).drop (i + 10) = text.drop (i + 10) ++ more :=
      List.drop_append_of_le_length hle
    rw [locationIn, afterLocation_eq hi] at h
    rw [locationIn, afterLocation_eq hi', hdrop]
    cases hj : find crlf (text.drop (i + 10)) with
    | top =>
      rw [hj, if_pos rfl] at h
      contradiction
    | coe j =>
      rw [hj, if_neg WithTop.coe_ne_top, Option.map_some, hj] at h
      have hj' : find crlf (text.drop (i + 10) ++ more) = WithTop.some j := find_append hj more
      have hjle := find_le hj
      have hlong : j ≤ (text.drop (i + 10) ++ more).length := by
        rw [List.length_append]
        omega
      rw [hj', if_neg WithTop.coe_ne_top, Option.map_some, hj', ← h]
      have hclip : ∀ n, j ≤ n → clip (WithTop.some j) n = j := fun n hn => min_eq_left hn
      rw [hclip _ hjle, hclip _ hlong, List.take_append_of_le_length hjle]

section Chunk

variable {qt} {maxRedirects : ℕ} {data : List ℕ} {target : Target}

def decision (maxRedirects redirects : ℕ) (target : Target) (data : List ℕ) : Decision :=
  if IsRedirect (statusVeriflier data) ∧ redirects < maxRedirects then
    match locationIn data with
    | some location => .redirects (redirected parseHostValuesVeriflier location target)
    | none => .finishes
  else .finishes

theorem setRedirectHostValuesVeriflier_eq (h : Plain qt data) :
    setRedirectHostValuesVeriflier qt data target =
      (locationIn data).map fun location =>
        redirected parseHostValuesVeriflier location target := by
  have hafter : afterLocation qt.toLower data = afterLocation (List.map tolower) data := by
    simp only [afterLocation, h.2]
  rw [setRedirectHostValuesVeriflier, locationIn, hafter, Option.map_map]
  refine congrArg (Option.map · _) (funext fun rest => ?_)
  exact congrArg (redirected parseHostValuesVeriflier · target) (erase_clip (find crlf rest) rest)

/-- No code has been read on the connection yet. -/
structure Unread (c : RemoteChecker) : Prop where
  code : c.responseCode = 0
  connected : c.connecting = false
  running : c.finished = false

variable {c : RemoteChecker}

theorem parseResponseCode_eq (hp : Plain qt data) (hne : data ≠ []) :
    c.parseResponseCode qt data =
      { c with response := data, responseCode := statusVeriflier data } := by
  rw [RemoteChecker.parseResponseCode, if_neg (mt List.length_eq_zero_iff.mp hne), hp.1]

theorem reading_zero (hu : Unread c) (hp : Plain qt data) (hne : data ≠ [])
    (hz : statusVeriflier data = 0) (chunks : List (List ℕ)) :
    reading qt maxRedirects c (data :: chunks) =
      reading qt maxRedirects { c with response := data } chunks := by
  have hparse : c.parseResponseCode qt data = _ := parseResponseCode_eq hp hne
  have hread : c.readyRead qt maxRedirects data = { c with response := data } := by
    rw [RemoteChecker.readyRead, if_neg (mt List.length_eq_zero_iff.mp hne), if_pos hu.code, hparse,
      hz, hu.code]
    rfl
  rw [reading, hread]
  simp [hu.connected, hu.running]

theorem reading_decides (hu : Unread c) (hp : Plain qt data) (hne : data ≠ [])
    (hz : statusVeriflier data ≠ 0) (chunks : List (List ℕ)) :
    reading qt maxRedirects c (data :: chunks) =
      ⟨statusVeriflier data, decision maxRedirects c.redirects c.target data⟩ := by
  have hparse : c.parseResponseCode qt data = _ := parseResponseCode_eq hp hne
  have hread : c.readyRead qt maxRedirects data = RemoteChecker.processResponse qt maxRedirects
      { c with response := data, responseCode := statusVeriflier data } := by
    rw [RemoteChecker.readyRead, if_neg (mt List.length_eq_zero_iff.mp hne), if_pos hu.code, hparse]
    exact if_pos hz
  rw [reading, hread, hparse, decision, RemoteChecker.processResponse]
  dsimp only
  by_cases hr : IsRedirect (statusVeriflier data)
  · rw [if_pos hr]
    by_cases hmax : c.redirects + 1 ≤ maxRedirects
    · have hboth : IsRedirect (statusVeriflier data) ∧ c.redirects < maxRedirects := ⟨hr, hmax⟩
      rw [if_pos hmax, if_pos hboth, setRedirectHostValuesVeriflier_eq hp]
      cases locationIn data with
      | none => simp [RemoteChecker.finishRequest, hu.connected]
      | some location => simp
    · have hboth : ¬(IsRedirect (statusVeriflier data) ∧ c.redirects < maxRedirects) :=
        fun h => hmax h.2
      rw [if_neg hmax, if_neg hboth]
      simp [RemoteChecker.finishRequest, hu.connected]
  · have hboth : ¬(IsRedirect (statusVeriflier data) ∧ c.redirects < maxRedirects) :=
      fun h => hr h.1
    rw [if_neg hr, if_neg hboth]
    simp [RemoteChecker.finishRequest, hu.connected]

end Chunk

namespace Response

variable (r : Response)

theorem text_take_short {k : ℕ} (h : k ≤ 8) : r.text.take k = r.version.take k :=
  List.take_append_of_le_length (r.version_length.symm ▸ h)

theorem find_space {k : ℕ} (h : 9 ≤ k) : find [space] (r.text.take k) = 8 := by
  obtain ⟨n, rfl⟩ := Nat.exists_eq_add_of_le h
  have hsplit :
      r.text.take (9 + n) = r.version ++ space :: (r.digits ++ space :: r.rest).take n := by
    have hnine : 9 + n = r.version.length + (n + 1) := by
      rw [r.version_length]
      omega
    rw [text, hnine, List.take_length_add_append, List.take_succ_cons]
  have hstart : find [space] (space :: (r.digits ++ space :: r.rest).take n) = 0 :=
    find_at_start (List.prefix_append [space] _)
  rw [hsplit, find_skip r.version_plain, hstart, zero_add, r.version_length]
  rfl

theorem code_text (k : ℕ) : substr 9 3 (r.text.take k) = r.digits.take (k - 9) := by
  have hdrop : r.text.drop 9 = r.digits ++ space :: r.rest := by
    have hnine : 9 = r.version.length + 1 := by rw [r.version_length]
    rw [text, hnine, List.drop_length_add_append]
    rfl
  rw [substr, List.drop_take, hdrop, List.take_take]
  rcases Nat.le_total (k - 9) 3 with h | h
  · rw [min_eq_right h, List.take_append_of_le_length (r.digits_length.symm ▸ h)]
  · rw [min_eq_left h, List.take_append_of_le_length (le_of_eq r.digits_length.symm),
      List.take_of_length_le (le_of_eq r.digits_length), List.take_of_length_le]
    rw [r.digits_length]
    exact h

theorem toInt_digits {digits : List ℕ} (hall : digits.all isDigit = true)
    (hlen : digits.length ≤ 3) :
    toInt digits = value digits := by
  by_cases hne : digits = []
  · rw [hne]
    decide
  · have hvalue := value_lt (List.all_eq_true.mp hall)
    have hpow : 10 ^ digits.length ≤ 10 ^ 3 := Nat.pow_le_pow_right (by decide) hlen
    rw [toInt, if_pos (isInt_digits hall hne (by omega)), decimal_digits hall]

theorem status_short {k : ℕ} (h : k ≤ 8) : statusVeriflier (r.text.take k) = -1 := by
  have hnone : find [space] (r.text.take k) = ⊤ := by
    rw [find_single_top, r.text_take_short h]
    exact fun hm => r.version_plain (List.mem_of_mem_take hm)
  rw [statusVeriflier, hnone, if_neg (WithTop.top_ne_ofNat 8)]

theorem status_long {k : ℕ} (h : 9 ≤ k) :
    statusVeriflier (r.text.take k) = value (r.digits.take (k - 9)) := by
  have hall : (r.digits.take (k - 9)).all isDigit = true :=
    List.all_eq_true.mpr fun d hd =>
      List.all_eq_true.mp r.digits_all d (List.mem_of_mem_take hd)
  have hlen : (r.digits.take (k - 9)).length ≤ 3 :=
    (List.take_sublist _ _).length_le.trans (le_of_eq r.digits_length)
  rw [statusVeriflier, r.find_space h, if_pos rfl, r.code_text, toInt_digits hall hlen]

theorem length_text : 13 ≤ r.text.length := by
  rw [text, List.length_append, List.length_cons, List.length_append, List.length_cons,
    r.version_length, r.digits_length]
  omega

theorem status_whole {k : ℕ} (h : 12 ≤ k) : statusVeriflier (r.text.take k) = r.code := by
  rw [r.status_long (by omega), code, List.take_of_length_le]
  rw [r.digits_length]
  omega

theorem status_text : statusVeriflier r.text = r.code := by
  have hlen := r.length_text
  have hstatus := r.status_whole (k := r.text.length) (by omega)
  rwa [List.take_length] at hstatus

theorem code_cut {j : ℕ} (hj : j < 3) (hzero : value (r.digits.take j) ≠ 0) :
    value (r.digits.take j) ≠ r.code := by
  obtain ⟨a, b, c, habc⟩ := List.length_eq_three.mp r.digits_length
  rw [code, habc]
  rw [habc] at hzero
  interval_cases j <;> simp only [value, List.take, List.foldl] at hzero ⊢ <;> omega

theorem status_inside {k : ℕ} (hk : 9 ≤ k) (hlt : k < 12) {chunk more : List ℕ}
    (h : chunk ++ more = r.text.drop k) : statusVeriflier chunk = -1 := by
  obtain ⟨j, rfl⟩ := Nat.exists_eq_add_of_le hk
  have hdrop : r.text.drop (9 + j) = r.digits.drop j ++ space :: r.rest := by
    have hnine : 9 + j = r.version.length + (j + 1) := by
      rw [r.version_length]
      omega
    rw [text, hnine, List.drop_length_add_append, List.drop_succ_cons,
      List.drop_append_of_le_length (by rw [r.digits_length]; omega)]
  have hplain : space ∉ r.digits.drop j := by
    intro hm
    have hdigit := List.all_eq_true.mp r.digits_all _ (List.mem_of_mem_drop hm)
    exact absurd hdigit (by decide)
  have hstart : find [space] (space :: r.rest) = 0 := find_at_start (List.prefix_append [space] _)
  have hfind : find [space] (chunk ++ more) = (r.digits.drop j).length := by
    rw [h, hdrop, find_skip hplain, hstart, zero_add]
  rw [statusVeriflier, if_neg]
  intro height
  have hsame := find_append (i := 8) height more
  rw [hfind, List.length_drop, r.digits_length] at hsame
  have hbad : 3 - j = 8 := by exact_mod_cast hsame
  omega

theorem text_ascii : Ascii r.text := by
  have hspace : 0 < space ∧ space < 128 := by decide
  have hdigit : ∀ d ∈ r.digits, 0 < d ∧ d < 128 := by
    intro d hd
    have hall := List.all_eq_true.mp r.digits_all d hd
    simp only [isDigit, Bool.and_eq_true, decide_eq_true_eq] at hall
    omega
  intro b hb
  simp only [text, List.mem_append, List.mem_cons] at hb
  rcases hb with hb | rfl | hb | rfl | hb
  · exact r.version_ascii b hb
  · exact hspace
  · exact hdigit b hb
  · exact hspace
  · exact r.rest_ascii b hb

end Response

theorem ascii_pieces {text : List ℕ} (cut : Cut text) (h : Ascii text) :
    Ascii cut.first ∧ ∀ chunk ∈ cut.later, Ascii chunk := by
  rw [← cut.whole] at h
  refine ⟨fun b hb => h b (List.mem_append_left _ hb), fun chunk hc b hb => ?_⟩
  exact h b (List.mem_append_right _ (List.mem_flatten.mpr ⟨chunk, hc, hb⟩))

variable {qt : Qt} {maxRedirects : ℕ}

theorem connected_unread (target : Target) (redirects : ℕ) : Unread (connected target redirects) :=
  ⟨rfl, rfl, rfl⟩

theorem reading_waits_iff {chunks : List (List ℕ)} : ∀ {c : RemoteChecker}, Unread c →
    (∀ chunk ∈ chunks, chunk ≠ [] ∧ Plain qt chunk) →
    (reading qt maxRedirects c chunks = ⟨0, .waits⟩ ↔
      ∀ chunk ∈ chunks, statusVeriflier chunk = 0) := by
  induction chunks with
  | nil =>
    intro c hu _
    rw [reading, hu.code]
    exact iff_of_true rfl nofun
  | cons chunk chunks ih =>
    intro c hu hall
    rw [List.forall_mem_cons] at hall ⊢
    obtain ⟨⟨hne, hp⟩, hrest⟩ := hall
    by_cases hz : statusVeriflier chunk = 0
    · have hnext := ih (c := { c with response := chunk }) ⟨hu.code, hu.connected, hu.running⟩ hrest
      rw [reading_zero hu hp hne hz, hnext]
      exact (and_iff_right hz).symm
    · rw [reading_decides hu hp hne hz]
      refine iff_of_false (fun h => hz ?_) (fun h => hz h.1)
      exact congrArg Reading.code h

/-- With the code in the first chunk, the decision hangs on the Location line. -/
theorem decision_iff {redirects : ℕ} (target : Target) {text more : List ℕ}
    (hstatus : statusVeriflier (text ++ more) = statusVeriflier text) :
    decision maxRedirects redirects target text =
      decision maxRedirects redirects target (text ++ more) ↔
      (IsRedirect (statusVeriflier text) → redirects < maxRedirects → Located (text ++ more) →
        Located text) := by
  simp only [decision, hstatus, ← locationIn_isSome]
  by_cases hr : IsRedirect (statusVeriflier text) ∧ redirects < maxRedirects
  · rw [if_pos hr, if_pos hr]
    cases hfirst : locationIn text with
    | some location =>
      rw [locationIn_append hfirst more]
      exact iff_of_true rfl fun _ _ _ => rfl
    | none =>
      cases locationIn (text ++ more) with
      | none => exact iff_of_true rfl fun _ _ h => h
      | some location => exact iff_of_false nofun fun h => absurd (h hr.1 hr.2 rfl) nofun
  · rw [if_neg hr, if_neg hr]
    exact iff_of_true rfl fun h₁ h₂ => absurd ⟨h₁, h₂⟩ hr

theorem reading_whole (hqt : ∀ bytes, Ascii bytes → Plain qt bytes) (r : Response) (target : Target)
    (redirects : ℕ) : reading qt maxRedirects (connected target redirects) [r.text] =
      if r.code = 0 then ⟨0, .waits⟩
      else ⟨r.code, decision maxRedirects redirects target r.text⟩ := by
  have hu := connected_unread target redirects
  have hp := hqt r.text r.text_ascii
  have hlong := r.length_text
  have hne : r.text ≠ [] := by
    intro hnil
    rw [hnil] at hlong
    contradiction
  by_cases hzero : r.code = 0
  · rw [if_pos hzero, reading_zero hu hp hne (by rw [r.status_text, hzero]; rfl)]
    rfl
  · rw [if_neg hzero, reading_decides hu hp hne (by rw [r.status_text]; exact_mod_cast hzero),
      r.status_text]
    rfl

theorem whole_ne_negative {r : Response} {d whole : Decision} :
    Reading.mk (-1) d ≠ if r.code = 0 then ⟨0, .waits⟩ else ⟨r.code, whole⟩ := by
  intro h
  have hcode := congrArg Reading.code h
  split at hcode
  all_goals
    dsimp only at hcode
    omega

section Cuts

variable (hqt : ∀ bytes, Ascii bytes → Plain qt bytes) {r : Response} (cut : Cut r.text)
  (target : Target) (redirects : ℕ)
include hqt

theorem pieces_plain : Plain qt cut.first ∧ ∀ chunk ∈ cut.later, chunk ≠ [] ∧ Plain qt chunk := by
  obtain ⟨hfirst, hlater⟩ := ascii_pieces cut r.text_ascii
  exact ⟨hqt _ hfirst, fun chunk hc => ⟨cut.later_ne chunk hc, hqt chunk (hlater chunk hc)⟩⟩

theorem version_cut_differs (h : cut.first.length ≤ 8) :
    reading qt maxRedirects (connected target redirects) cut.chunks ≠
      reading qt maxRedirects (connected target redirects) [r.text] := by
  have hstatus := r.status_short h
  rw [← cut.first_eq] at hstatus
  rw [reading_whole hqt, Cut.chunks, reading_decides (connected_unread target redirects)
    (pieces_plain hqt cut).1 cut.first_ne (by rw [hstatus]; decide), hstatus]
  exact whole_ne_negative

/-- The first chunk ends in the code: it gives the digits so far, and where these are none or
zeros the next chunk gives -1. -/
theorem code_cut_differs (h : 9 ≤ cut.first.length) (hlt : cut.first.length < 12) :
    reading qt maxRedirects (connected target redirects) cut.chunks ≠
      reading qt maxRedirects (connected target redirects) [r.text] := by
  have hu := connected_unread target redirects
  obtain ⟨hfirst, hlater⟩ := pieces_plain hqt cut
  have hstatus := r.status_long h
  rw [← cut.first_eq] at hstatus
  rw [reading_whole hqt, Cut.chunks]
  by_cases hzero : value (r.digits.take (cut.first.length - 9)) = 0
  · rw [hzero] at hstatus
    rw [reading_zero hu hfirst cut.first_ne hstatus]
    have hrest := cut.later_eq
    cases hl : cut.later with
    | nil =>
      rw [hl] at hrest
      have hend := congrArg List.length hrest
      have hlong := r.length_text
      rw [List.length_drop] at hend
      simp only [List.flatten_nil, List.length_nil] at hend
      omega
    | cons chunk chunks =>
      rw [hl, List.flatten_cons] at hrest
      have hinside := r.status_inside h hlt hrest
      obtain ⟨hne, hp⟩ := hlater chunk (hl ▸ List.mem_cons_self ..)
      rw [reading_decides (c := { connected target redirects with response := cut.first })
        ⟨hu.code, hu.connected, hu.running⟩ hp hne (by rw [hinside]; decide), hinside]
      exact whole_ne_negative
  · have hcut := r.code_cut (by omega) hzero
    rw [reading_decides hu hfirst cut.first_ne (by rw [hstatus]; exact_mod_cast hzero), hstatus]
    intro heq
    have hcode := congrArg Reading.code heq
    split at hcode
    · dsimp only at hcode
      exact hzero (by exact_mod_cast hcode)
    · dsimp only at hcode
      exact hcut (by exact_mod_cast hcode)

theorem code_known_iff (h : 12 ≤ cut.first.length) :
    reading qt maxRedirects (connected target redirects) cut.chunks =
        reading qt maxRedirects (connected target redirects) [r.text] ↔
      (IsRedirect r.code → redirects < maxRedirects → Located r.text → Located cut.first) ∧
        (r.code = 0 → ∀ chunk ∈ cut.later, statusVeriflier chunk = 0) := by
  have hu := connected_unread target redirects
  obtain ⟨hfirst, hlater⟩ := pieces_plain hqt cut
  have hstatus := r.status_whole h
  rw [← cut.first_eq] at hstatus
  rw [reading_whole hqt, Cut.chunks]
  by_cases hzero : r.code = 0
  · have hredirect : ¬IsRedirect r.code := by
      rw [hzero]
      decide
    have hwaits : reading qt maxRedirects { connected target redirects with response := cut.first }
        cut.later = ⟨0, .waits⟩ ↔ _ :=
      reading_waits_iff ⟨hu.code, hu.connected, hu.running⟩ hlater
    rw [if_pos hzero, reading_zero hu hfirst cut.first_ne (by rw [hstatus, hzero]; rfl), hwaits]
    exact ⟨fun hall => ⟨fun hr => absurd hr hredirect, fun _ => hall⟩, fun hboth => hboth.2 hzero⟩
  · have hdecision : decision maxRedirects redirects target cut.first =
        decision maxRedirects redirects target (cut.first ++ cut.later.flatten) ↔ _ :=
      decision_iff target (by rw [cut.whole, r.status_text, hstatus])
    rw [cut.whole, hstatus] at hdecision
    rw [if_neg hzero,
      reading_decides hu hfirst cut.first_ne (by rw [hstatus]; exact_mod_cast hzero),
      hstatus, Reading.mk.injEq, ← hdecision]
    exact ⟨fun heq => ⟨heq.2, fun h => absurd h hzero⟩, fun hboth => ⟨rfl, hboth.1⟩⟩

end Cuts

/-- The veriflier reads a response in chunks as it reads it in one piece if and only if the
first chunk decides. -/
theorem segmentation_iff (hqt : ∀ bytes, Ascii bytes → Plain qt bytes) (r : Response)
    (cut : Cut r.text) (target : Target) (redirects : ℕ) :
    reading qt maxRedirects (connected target redirects) cut.chunks =
        reading qt maxRedirects (connected target redirects) [r.text] ↔
      Decides maxRedirects r redirects cut := by
  rcases Nat.lt_or_ge cut.first.length 12 with hshort | hcode
  · refine iff_of_false ?_ fun h => absurd h.code (by omega)
    rcases Nat.lt_or_ge 8 cut.first.length with hline | hline
    · exact code_cut_differs hqt cut target redirects hline hshort
    · exact version_cut_differs hqt cut target redirects hline
  · rw [code_known_iff hqt cut target redirects hcode]
    exact ⟨fun h => ⟨hcode, h.1, h.2⟩, fun h => ⟨h.location, h.zero⟩⟩

def moved : Response where
  version := codes "HTTP/1.1"
  digits := codes "301"
  rest := codes "Moved\x0d\nLocation: http://example.org/\x0d\n\x0d\n"
  version_length := by decide
  version_plain := by decide
  digits_length := by decide
  digits_all := by decide
  version_ascii := by unfold Ascii; decide
  rest_ascii := by unfold Ascii; decide

def statusLineFirst : Cut moved.text where
  first := codes "HTTP/1.1 301 Moved\x0d\n"
  later := [codes "Location: http://example.org/\x0d\n\x0d\n"]
  first_ne := by decide
  later_ne := by decide
  whole := by decide

theorem asciiQt_plain (bytes : List ℕ) (h : Ascii bytes) : Plain asciiQt bytes := by
  refine ⟨List.takeWhile_eq_self_iff.mpr fun b hb => ?_, rfl⟩
  have hpos := (h b hb).1
  simpa using Nat.ne_of_gt hpos

theorem segmentation_iff_status_line :
    reading asciiQt 2 (connected ⟨[], [slash], 80, false⟩ 0) statusLineFirst.chunks =
        reading asciiQt 2 (connected ⟨[], [slash], 80, false⟩ 0) [moved.text] ↔
      Decides 2 moved 0 statusLineFirst :=
  segmentation_iff asciiQt_plain moved statusLineFirst _ 0

/-- The redirect is not followed, and the 301 counts as up. -/
theorem status_line_ends_check :
    ¬∀ (r : Response) (cut : Cut r.text) (target : Target) (redirects : ℕ),
      reading asciiQt 2 (connected target redirects) cut.chunks =
        reading asciiQt 2 (connected target redirects) [r.text] := by
  intro h
  have hsame := h moved statusLineFirst ⟨[], [slash], 80, false⟩ 0
  exact absurd hsame (by decide)

end ResponseChunks
