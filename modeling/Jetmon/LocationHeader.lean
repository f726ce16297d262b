import Jetmon.RequestBuffer
import Jetmon.Utf8Text

/-! The Location header in a response head, and what set_redirect_host_values of both sides takes
for its value. Both look for "location: " in the whole text in lower case, and use the position in
the text itself. -/
namespace LocationHeader

open TextSearch
open HostValues
open HttpVerdict
open RequestBuffer
open Utf8Text

/-- Characters that are no part of a "location: ". İ becomes an i and a combining dot. -/
def Foreign (chars : List ℕ) : Prop :=
  (∃ c, chars = [c] ∧ c ∉ locationHeader) ∨ chars = [0x69, 0x307]

/-- Lower case, character by character, and by how many units a character grows. -/
structure Lowering (E : Encoding) (lower : List ℕ → List ℕ) (char : ℕ → List ℕ) (grow : ℕ → ℕ) :
    Prop where
  text : ∀ t : List ℕ, (∀ c ∈ t, IsScalar c) → lower (E.text t) = E.text (t.flatMap char)
  ascii : ∀ c < 128, char c = [tolower c] ∧ grow c = 0
  wide : ∀ c, 128 ≤ c → Foreign (char c) ∧ (E.text (char c)).length = (E.encode c).length + grow c

theorem tolower_ascii {c : ℕ} (h : c < 128) : tolower c < 128 := by
  unfold tolower
  split <;> omega

theorem tolower_wide {c : ℕ} (h : 128 ≤ c) : tolower c = c := if_neg (by omega)

theorem locationHeader_ascii : ∀ p ∈ locationHeader, p < 128 := by decide

theorem wide_not_mem {c : ℕ} (h : 128 ≤ c) : c ∉ locationHeader :=
  fun hm => absurd (locationHeader_ascii c hm) (by omega)

theorem worker_lowering (E : Encoding) :
    Lowering E (List.map tolower) (fun c => [tolower c]) fun _ => 0 where
  text t hscalar := by
    clear hscalar
    induction t with
    | nil => rfl
    | cons c t ih =>
      rw [E.text_cons, List.map_append, ih, List.flatMap_cons, List.singleton_append, E.text_cons]
      refine congrArg (· ++ _) ?_
      by_cases hc : c < 128
      · rw [E.ascii c hc, E.ascii _ (tolower_ascii hc)]
        rfl
      · rw [tolower_wide (by omega)]
        have hunits : ∀ u ∈ E.encode c, tolower u = id u :=
          fun u hu => tolower_wide ((E.wide c (by omega)).2 u hu)
        exact (List.map_congr_left hunits).trans (List.map_id _)
  ascii c _ := ⟨rfl, rfl⟩
  wide c hc := by
    rw [tolower_wide hc]
    refine ⟨Or.inl ⟨c, rfl, wide_not_mem hc⟩, ?_⟩
    rw [E.text_cons]
    exact congrArg List.length (List.append_nil _)

variable {E : Encoding} {lower : List ℕ → List ℕ} {char : ℕ → List ℕ} {grow : ℕ → ℕ}

theorem Foreign.not_start {chars : List ℕ} (h : Foreign chars) {pat : List ℕ} (hne : pat ≠ [])
    (hpat : pat <:+ locationHeader) (rest : List ℕ) : ¬pat <+: chars ++ rest := by
  obtain ⟨p, ps, rfl⟩ := List.exists_cons_of_ne_nil hne
  have hmem : p ∈ locationHeader := hpat.subset (List.mem_cons_self ..)
  rintro hpre
  rcases h with ⟨c, rfl, hc⟩ | rfl
  · rw [List.singleton_append, List.cons_prefix_cons] at hpre
    exact hc (hpre.1 ▸ hmem)
  · -- behind the i of the pattern there is an o
    have hnext : ∀ tail ∈ locationHeader.tails, tail.head? = some 0x69 →
        tail.tail.head? = some 111 := by
      decide
    rw [List.cons_append, List.cons_prefix_cons] at hpre
    obtain ⟨rfl, hpre⟩ := hpre
    have hps := hnext _ ((List.mem_tails ..).mpr hpat) rfl
    obtain ⟨qs, rfl⟩ := List.head?_eq_some_iff.mp hps
    rw [List.singleton_append, List.cons_prefix_cons] at hpre
    exact absurd hpre.1 (by decide)

variable (L : Lowering E lower char grow)

include L

theorem prefix_lowered {pat : List ℕ} (hpat : pat <:+ locationHeader) (t : List ℕ) :
    pat <+: t.flatMap char ↔ pat <+: t.map tolower := by
  induction pat generalizing t with
  | nil => exact iff_of_true List.nil_prefix List.nil_prefix
  | cons p ps ih =>
    cases t with
    | nil => exact Iff.rfl
    | cons c t =>
      rw [List.flatMap_cons, List.map_cons]
      have hps := ih ((List.suffix_cons p ps).trans hpat) t
      by_cases hc : c < 128
      · rw [(L.ascii c hc).1, List.singleton_append, List.cons_prefix_cons, List.cons_prefix_cons,
          hps]
      · have hp := hpat.subset (List.mem_cons_self ..)
        refine iff_of_false ((L.wide c (by omega)).1.not_start (List.cons_ne_nil _ _) hpat _) ?_
        rw [List.cons_prefix_cons, tolower_wide (by omega)]
        rintro ⟨rfl, -⟩
        exact wide_not_mem (by omega) hp

theorem find_lowered (t : List ℕ) : find locationHeader (t.flatMap char) =
    (find locationHeader (t.map tolower)).map fun i => ((t.take i).flatMap char).length := by
  induction t with
  | nil => rfl
  | cons c t ih =>
    have hiff := prefix_lowered L (List.suffix_refl _) (c :: t)
    by_cases hp : locationHeader <+: (c :: t).map tolower
    · rw [find_at_start hp, find_at_start (hiff.mpr hp)]
      rfl
    · have hskip : find locationHeader (char c ++ t.flatMap char) =
          find locationHeader (t.flatMap char) + (char c).length := by
        have hnot : ¬locationHeader <+: char c ++ t.flatMap char := mt hiff.mp hp
        by_cases hc : c < 128
        · rw [(L.ascii c hc).1] at hnot ⊢
          exact find_cons hnot
        · rcases (L.wide c (by omega)).1 with ⟨d, hd, -⟩ | hd
          · rw [hd] at hnot ⊢
            exact find_cons hnot
          · rw [hd]
            have hfirst : 108 ∉ [0x69, 0x307] := by decide
            exact find_skip hfirst _
      have hcons : find locationHeader ((c :: t).map tolower) =
        find locationHeader (t.map tolower) + 1 := find_cons hp
      rw [List.flatMap_cons, hskip, ih, hcons]
      cases find locationHeader (t.map tolower) with
      | top => rfl
      | coe i =>
        have hlen : ((c :: t.take i).flatMap char).length =
            ((t.take i).flatMap char).length + (char c).length := by
          rw [List.flatMap_cons, List.length_append, add_comm]
        exact congrArg WithTop.some hlen.symm

theorem length_lowered (t : List ℕ) :
    (E.text (t.flatMap char)).length = (E.text t).length + (t.map grow).sum := by
  induction t with
  | nil => rfl
  | cons c t ih =>
    have hchar : (E.text (char c)).length = (E.encode c).length + grow c := by
      by_cases hc : c < 128
      · rw [(L.ascii c hc).1, (L.ascii c hc).2, E.text_cons, E.ascii c hc,
          E.ascii _ (tolower_ascii hc)]
        rfl
      · exact (L.wide c (by omega)).2
    rw [List.flatMap_cons, E.text_append, E.text_cons, List.length_append, List.length_append,
      hchar, ih,
      List.map_cons, List.sum_cons]
    omega

theorem header_pos {t : List ℕ} (hscalar : ∀ c ∈ t, IsScalar c) {i : ℕ}
    (hi : find locationHeader (t.map tolower) = WithTop.some i) :
    find locationHeader (lower (E.text t)) =
      WithTop.some ((E.text (t.take i)).length + ((t.take i).map grow).sum) := by
  have htake : (t.flatMap char).take ((t.take i).flatMap char).length =
      (t.take i).flatMap char := by
    have hwhole : t.flatMap char = (t.take i).flatMap char ++ (t.drop i).flatMap char := by
      rw [← List.flatMap_append, List.take_append_drop]
    rw [hwhole, List.take_left]
  rw [L.text t hscalar, E.find_text (by decide) locationHeader_ascii, find_lowered L, hi,
    ← length_lowered L]
  change WithTop.some (E.text ((t.flatMap char).take _)).length = _
  rw [htake]

omit L in
theorem header_text {t : List ℕ} {i : ℕ}
    (hi : find locationHeader (t.map tolower) = WithTop.some i) :
    E.text (t.drop i) = (t.drop i).take 10 ++ E.text (t.drop (i + 10)) := by
  have hten : ((t.drop i).take 10).map tolower = locationHeader := by
    obtain ⟨rest, hrest⟩ := prefix_of_find hi
    rw [List.map_take, List.map_drop, ← hrest]
    rfl
  rw [E.text_take_drop (t.drop i) 10, List.drop_drop]
  refine congrArg (· ++ _) (E.text_ascii fun c hc => ?_)
  by_contra hwide
  have hmem : tolower c ∈ locationHeader := hten ▸ List.mem_map_of_mem hc
  rw [tolower_wide (by omega)] at hmem
  exact wide_not_mem (by omega) hmem

omit L in
theorem text_after_header {t : List ℕ} {i : ℕ}
    (hi : find locationHeader (t.map tolower) = WithTop.some i) :
    (E.text t).drop ((E.text (t.take i)).length + 10) = E.text (t.drop (i + 10)) := by
  have hlen : ((t.drop i).take 10).length = 10 := by
    have hle := (prefix_of_find hi).length_le
    have hten : locationHeader.length = 10 := rfl
    rw [List.length_drop, List.length_map] at hle
    rw [List.length_take, List.length_drop]
    omega
  rw [← List.drop_drop, E.text_take_drop t i, List.drop_left, header_text hi]
  exact List.drop_left' hlen

/-- Behind the header the text goes on as many units later as the text in front of it has
grown. -/
theorem afterLocation_lowered {t : List ℕ} (hscalar : ∀ c ∈ t, IsScalar c) :
    afterLocation lower (E.text t) =
      match find locationHeader (t.map tolower) with
      | none => none
      | some i =>
        let rest := (E.text (t.drop (i + 10))).drop ((t.take i).map grow).sum
        if find crlf rest = ⊤ then none else some rest := by
  cases hi : find locationHeader (t.map tolower) with
  | top =>
    have hnone : find locationHeader (lower (E.text t)) = ⊤ := by
      rw [L.text t hscalar, E.find_text (by decide) locationHeader_ascii, find_lowered L, hi]
      rfl
    simp only [afterLocation, hnone]
  | coe i =>
    have hrest : substr ((E.text (t.take i)).length + ((t.take i).map grow).sum + 10)
        ((E.text t).length - ((E.text (t.take i)).length + ((t.take i).map grow).sum + 10))
          (E.text t) =
          (E.text (t.drop (i + 10))).drop ((t.take i).map grow).sum := by
      rw [substr, List.take_of_length_le (by rw [List.length_drop]), add_right_comm,
        ← List.drop_drop,
        text_after_header hi]
    simp only [afterLocation, header_pos L hscalar hi]
    change (if find crlf (substr _ _ _) = ⊤ then none else some (substr _ _ _)) = _
    rw [hrest]

omit L

instance (c : ℕ) : Decidable (IsScalar c) := inferInstanceAs (Decidable (_ ∧ ¬_))

def OneLine (text : List ℕ) : Prop := ∀ u ∈ text, IsScalar u ∧ u ≠ 0 ∧ u ∉ crlf

instance (text : List ℕ) : Decidable (OneLine text) := inferInstanceAs (Decidable (∀ u ∈ text, _))

theorem find_line {us : List ℕ} (h : 13 ∉ us) (rest : List ℕ) :
    find crlf (us ++ (crlf ++ rest)) = us.length := by
  have hstart : find crlf (crlf ++ rest) = 0 := find_at_start (List.prefix_append crlf rest)
  have hskip : find crlf (us ++ (crlf ++ rest)) = find crlf (crlf ++ rest) + us.length :=
    find_skip h _
  rw [hskip, hstart, zero_add]

theorem findAny_line {us : List ℕ} (h : ∀ u ∈ us, u ∉ crlf) (rest : List ℕ) :
    findAny crlf (us ++ (crlf ++ rest)) = us.length := by
  induction us with
  | nil => rfl
  | cons u us ih =>
    have hrest := ih fun v hv => h v (List.mem_cons_of_mem _ hv)
    rw [List.cons_append, findAny, if_neg (h u (List.mem_cons_self ..)), hrest, List.length_cons]
    push_cast
    rfl

theorem take_line {us rest : List ℕ} {end_ : WithTop ℕ} (h : end_ = us.length) :
    (us ++ (crlf ++ rest)).take (clip end_ (us ++ (crlf ++ rest)).length) = us := by
  have hclip : clip end_ (us ++ (crlf ++ rest)).length = us.length := by
    rw [h, List.length_append]
    exact min_eq_left (Nat.le_add_right _ _)
  rw [hclip, List.take_left]

def remoteLocationOf (qt : Qt) (content : List ℕ) : Option (List ℕ) :=
  (afterLocation qt.toLower content).map fun rest => rest.take (clip (find crlf rest) rest.length)

theorem setRedirectHostValuesVeriflier_remote (qt : Qt) (content : List ℕ) (h : Target) :
    setRedirectHostValuesVeriflier qt content h = (remoteLocationOf qt content).map fun location =>
      redirected parseHostValuesVeriflier location h := by
  rw [setRedirectHostValuesVeriflier, remoteLocationOf, Option.map_map]
  refine congrArg (Option.map · _) (funext fun rest => ?_)
  exact congrArg (redirected parseHostValuesVeriflier · h) (erase_clip (find crlf rest) rest)

/-- A line `Name: value`. -/
structure Header where
  name : List ℕ
  value : List ℕ
  name_line : OneLine name
  name_plain : colon ∉ name
  value_line : OneLine value

def Header.line (h : Header) : List ℕ := h.name ++ codes ": " ++ h.value

def Header.IsLocation (h : Header) : Prop := h.name.map tolower = codes "location"

instance (h : Header) : Decidable h.IsLocation := inferInstanceAs (Decidable (_ = _))

structure Head where
  status : List ℕ
  headers : List Header
  status_line : OneLine status

variable (head : Head)

def Head.lines : List (List ℕ) := head.status :: head.headers.map Header.line

def Head.text : List ℕ := head.lines.flatMap (· ++ crlf) ++ crlf

/-- The value of the first Location header. -/
def Head.location : Option (List ℕ) := (head.headers.find? (·.IsLocation)).map Header.value

def behind (line : List ℕ) : Option (List ℕ) :=
  match find locationHeader (line.map tolower) with
  | none => none
  | some i => some (line.drop (i + 10))

def Head.front : List (List ℕ) :=
  head.status :: (head.headers.takeWhile fun h => ¬h.IsLocation).map Header.line

def Head.shadow : Option (List ℕ) := head.front.findSome? behind

theorem line_oneLine (h : Header) : OneLine h.line := by
  intro u hu
  rw [Header.line, List.mem_append, List.mem_append] at hu
  rcases hu with (hu | hu) | hu
  · exact h.name_line u hu
  · have hsep : OneLine (codes ": ") := by decide
    exact hsep u hu
  · exact h.value_line u hu

theorem Head.lines_oneLine : ∀ line ∈ head.lines, OneLine line := by
  intro line hline
  rcases List.mem_cons.mp hline with rfl | hline
  · exact head.status_line
  · obtain ⟨h, -, rfl⟩ := List.mem_map.mp hline
    exact line_oneLine h

theorem behind_location {h : Header} (hl : h.IsLocation) : behind h.line = some h.value := by
  have hstart : find locationHeader (h.line.map tolower) = WithTop.some 0 := by
    refine find_at_start ⟨h.value.map tolower, ?_⟩
    rw [Header.line, List.map_append, List.map_append, hl]
    rfl
  have hlen : (h.name ++ codes ": ").length = 0 + 10 := by
    have hname := congrArg List.length hl
    rw [List.length_map] at hname
    rw [List.length_append, hname]
    rfl
  simp only [behind, hstart]
  exact congrArg some (List.drop_left' hlen)

theorem findSome_lines : head.lines.findSome? behind = head.shadow.or head.location := by
  rw [Head.lines, Head.shadow, Head.front, Head.location, List.findSome?_cons, List.findSome?_cons]
  cases behind head.status with
  | some value => rfl
  | none =>
    dsimp only
    induction head.headers with
    | nil => rfl
    | cons h headers ih =>
      by_cases hl : h.IsLocation
      · simp [hl, behind_location hl]
      · simp only [List.map_cons, List.findSome?_cons, List.takeWhile_cons, List.find?_cons, hl,
          not_false_eq_true, decide_true, decide_false, if_true]
        cases behind h.line with
        | some value => rfl
        | none => exact ih

theorem find_lines {lines : List (List ℕ)} :
    match lines.findSome? behind with
    | none => find locationHeader ((lines.flatMap (· ++ crlf) ++ crlf).map tolower) = ⊤
    | some value => ∃ (i : ℕ) (rest : List ℕ),
        find locationHeader ((lines.flatMap (· ++ crlf) ++ crlf).map tolower) = i ∧
          (lines.flatMap (· ++ crlf) ++ crlf).drop (i + 10) = value ++ (crlf ++ rest) := by
  induction lines with
  | nil => rfl
  | cons line lines ih =>
    obtain ⟨rest, hrest⟩ : ∃ rest, rest = lines.flatMap (· ++ crlf) ++ crlf := ⟨_, rfl⟩
    rw [← hrest] at ih
    have htext : (line :: lines).flatMap (· ++ crlf) ++ crlf = line ++ (crlf ++ rest) := by
      rw [hrest, List.flatMap_cons, List.append_assoc, List.append_assoc]
    rw [htext, List.findSome?_cons, List.map_append]
    cases hfind : find locationHeader (line.map tolower) with
    | top =>
      have hnone : behind line = none := by simp only [behind, hfind]
      have hacross : find locationHeader (line.map tolower ++ (crlf ++ rest).map tolower) =
          find locationHeader ((crlf ++ rest).map tolower) + (line.map tolower).length := by
        have hcr : 13 ∉ locationHeader := by decide
        exact find_across hcr (find_eq_top.mp hfind) (10 :: rest.map tolower)
      have hcrlf : find locationHeader ((crlf ++ rest).map tolower) =
          find locationHeader (rest.map tolower) + crlf.length := by
        have hfirst : 108 ∉ crlf := by decide
        rw [List.map_append]
        exact find_skip hfirst _
      rw [hnone, hacross, hcrlf, List.length_map]
      cases hv : lines.findSome? behind with
      | none =>
        rw [hv] at ih
        dsimp only at ih ⊢
        rw [ih]
        rfl
      | some value =>
        rw [hv] at ih
        obtain ⟨i, rest', hi, hdrop⟩ := ih
        refine ⟨line.length + (crlf.length + i), rest', ?_, ?_⟩
        · rw [hi]
          push_cast
          ring
        · rw [add_assoc, List.drop_length_add_append, add_assoc, List.drop_length_add_append, hdrop]
    | coe i =>
      have hsome : behind line = some (line.drop (i + 10)) := by simp only [behind, hfind]
      have hle : i + 10 ≤ line.length := by
        have hpre := (prefix_of_find hfind).length_le
        have hten : locationHeader.length = 10 := rfl
        have hbound := find_le hfind
        rw [List.length_drop, List.length_map, hten] at hpre
        rw [List.length_map] at hbound
        omega
      rw [hsome]
      exact ⟨i, rest, find_append hfind _, List.drop_append_of_le_length hle⟩

/-- The head has no "location: ", or a value and the end of its line stand behind the first one. -/
theorem Head.find_text :
    match head.shadow.or head.location with
    | none => find locationHeader (head.text.map tolower) = ⊤
    | some value => ∃ (i : ℕ) (rest : List ℕ), find locationHeader (head.text.map tolower) = i ∧
        head.text.drop (i + 10) = value ++ (crlf ++ rest) := by
  rw [← findSome_lines head]
  exact find_lines

def Head.dots : ℕ :=
  match find locationHeader (head.text.map tolower) with
  | none => 0
  | some i => (head.text.take i).count 0x130

/-- What stands that many UTF-16 units behind the first "location: ", up to the next CRLF. -/
def Head.shifted : Option (List ℕ) :=
  match find locationHeader (head.text.map tolower) with
  | none => none
  | some i =>
    let rest := (Encoding.utf16.text (head.text.drop (i + 10))).drop head.dots
    if find crlf rest = ⊤ then none else some (rest.take (clip (find crlf rest) rest.length))

/-- What both sides read is the value of the first Location header: no other "location: " stands
in front of it, or the same text stands behind the first one, and this is so also for the units
that the veriflier reads. -/
structure Head.Exact : Prop where
  plain : head.shadow = none ∨ head.shadow = head.location
  undotted : head.dots = 0 ∨ head.shifted = head.location.map Encoding.utf16.text

theorem Head.text_scalar : ∀ c ∈ head.text, IsScalar c := by
  have hcrlf : ∀ c ∈ crlf, IsScalar c := by decide
  intro c hc
  rcases List.mem_append.mp hc with hc | hc
  · obtain ⟨line, hline, hc⟩ := List.mem_flatMap.mp hc
    rcases List.mem_append.mp hc with hc | hc
    · exact (head.lines_oneLine line hline c hc).1
    · exact hcrlf c hc
  · exact hcrlf c hc

theorem Head.value_oneLine {value : List ℕ} (h : head.shadow.or head.location = some value) :
    OneLine value := by
  rw [← findSome_lines] at h
  obtain ⟨line, hline, hb⟩ := List.exists_of_findSome?_eq_some h
  have hdrop : ∃ i, value = line.drop i := by
    cases hfind : find locationHeader (line.map tolower) with
    | top =>
      simp only [behind, hfind] at hb
      contradiction
    | coe i =>
      simp only [behind, hfind] at hb
      exact ⟨i + 10, (Option.some.inj hb).symm⟩
  obtain ⟨i, rfl⟩ := hdrop
  exact fun u hu => head.lines_oneLine line hline u (List.mem_of_mem_drop hu)

theorem OneLine.encoded {value : List ℕ} (h : OneLine value) (E : Encoding) :
    ∀ u ∈ E.text value, u ∉ crlf := by
  intro u hu hcrlf
  have hascii : ∀ v ∈ crlf, v < 128 := by decide
  exact (h u ((E.mem_text (hascii u hcrlf)).mp hu)).2.2 hcrlf

theorem crlf_text (E : Encoding) (value rest : List ℕ) :
    E.text (value ++ (crlf ++ rest)) = E.text value ++ (crlf ++ E.text rest) := by
  have hcrlf : E.text crlf = crlf := E.text_ascii (by decide)
  rw [E.text_append, E.text_append, hcrlf]

theorem find_line_ne_top {us : List ℕ} (h : ∀ u ∈ us, u ∉ crlf) (rest : List ℕ) :
    find crlf (us ++ (crlf ++ rest)) ≠ ⊤ := by
  have hcr : 13 ∉ us := fun hm => h 13 hm (by decide)
  rw [find_line hcr]
  exact WithTop.coe_ne_top

theorem worker_reads : locationOf (Encoding.utf8.text head.text) =
    (head.shadow.or head.location).map Encoding.utf8.text := by
  have hfound := head.find_text
  rw [locationOf, afterLocation_lowered (worker_lowering Encoding.utf8) head.text_scalar]
  cases hv : head.shadow.or head.location with
  | none =>
    rw [hv] at hfound
    simp only [hfound]
    rfl
  | some value =>
    rw [hv] at hfound
    obtain ⟨i, rest, hi, hdrop⟩ := hfound
    have hi : find locationHeader (head.text.map tolower) = WithTop.some i := hi
    have hline := (head.value_oneLine hv).encoded Encoding.utf8
    have hzero : ((head.text.take i).map fun _ => 0).sum = 0 := by simp
    rw [hi]
    dsimp only
    rw [hzero, List.drop_zero, hdrop, crlf_text, if_neg (find_line_ne_top hline _), Option.map_some,
      take_line (findAny_line hline _), Option.map_some]

def dotted (c : ℕ) : ℕ := if c = 0x130 then 1 else 0

theorem sum_dotted (t : List ℕ) : (t.map dotted).sum = t.count 0x130 := by
  induction t with
  | nil => rfl
  | cons c t ih =>
    rw [List.map_cons, List.sum_cons, ih, List.count_cons, dotted, add_comm]
    simp only [beq_iff_eq]

theorem veriflier_reads {qt : Qt} {char : ℕ → List ℕ}
    (hq : Lowering Encoding.utf16 qt.toLower char dotted) :
    remoteLocationOf qt (Encoding.utf16.text head.text) = head.shifted := by
  rw [remoteLocationOf, afterLocation_lowered hq head.text_scalar, Head.shifted]
  cases hi : find locationHeader (head.text.map tolower) with
  | top => rfl
  | coe i =>
    have hdots : head.dots = ((head.text.take i).map dotted).sum := by
      simp only [Head.dots, hi, sum_dotted]
    dsimp only
    rw [hdots]
    split <;> rfl

theorem shifted_undotted (h : head.dots = 0) :
    head.shifted = (head.shadow.or head.location).map Encoding.utf16.text := by
  have hfound := head.find_text
  rw [Head.shifted, h]
  cases hv : head.shadow.or head.location with
  | none =>
    rw [hv] at hfound
    rw [hfound]
    rfl
  | some value =>
    rw [hv] at hfound
    obtain ⟨i, rest, hi, hdrop⟩ := hfound
    have hi : find locationHeader (head.text.map tolower) = WithTop.some i := hi
    have hline := (head.value_oneLine hv).encoded Encoding.utf16
    have hcr : 13 ∉ Encoding.utf16.text value := fun hm => hline 13 hm (by decide)
    rw [hi]
    dsimp only
    rw [List.drop_zero, hdrop, crlf_text, if_neg (find_line_ne_top hline _),
      take_line (find_line hcr _), Option.map_some]

theorem or_eq_right {α : Type*} {a b : Option α} : a.or b = b ↔ a = none ∨ a = b := by
  cases a with
  | none => simp
  | some x => simp

theorem Head.location_oneLine {value : List ℕ} (h : head.location = some value) :
    OneLine value := by
  obtain ⟨header, -, rfl⟩ := Option.map_eq_some_iff.mp h
  exact header.value_line

theorem encoded_injective {a b : Option (List ℕ)} (ha : ∀ t ∈ a, ∀ c ∈ t, IsScalar c)
    (hb : ∀ t ∈ b, ∀ c ∈ t, IsScalar c)
    (h : a.map Encoding.utf8.text = b.map Encoding.utf8.text) : a = b := by
  cases a with
  | none => exact (Option.map_eq_none_iff.mp h.symm).symm
  | some s =>
    cases b with
    | none => contradiction
    | some t => exact congrArg some (utf8_injective (ha s rfl) (hb t rfl) (Option.some.inj h))

/-- For every response head: both sides fail where no header is named Location and else read
exactly the value of the first such header, if and only if no other "location: " shadows it and
nothing in front of it changes its length in lower case. -/
theorem location_exact_iff (qt : Qt) {char : ℕ → List ℕ}
    (hq : Lowering Encoding.utf16 qt.toLower char dotted) (head : Head) :
    (locationOf (Encoding.utf8.text head.text) = head.location.map Encoding.utf8.text ∧
      remoteLocationOf qt (Encoding.utf16.text head.text) =
        head.location.map Encoding.utf16.text) ↔ head.Exact := by
  rw [worker_reads, veriflier_reads head hq]
  constructor
  · rintro ⟨hworker, hveriflier⟩
    have hor : head.shadow.or head.location = head.location := by
      refine encoded_injective ?_ ?_ hworker
      · exact fun t ht c hc => (head.value_oneLine ht c hc).1
      · exact fun t ht c hc => (head.location_oneLine ht c hc).1
    exact ⟨or_eq_right.mp hor, Or.inr hveriflier⟩
  · rintro ⟨hplain, hdots⟩
    have hor := or_eq_right.mpr hplain
    refine ⟨by rw [hor], ?_⟩
    rcases hdots with hzero | hshifted
    · rw [shifted_undotted head hzero, hor]
    · exact hshifted

def lowerUnit (u : ℕ) : List ℕ := if u = 0x130 then [0x69, 0x307] else [tolower u]

def dottedQt : Qt := ⟨fun bytes => bytes.takeWhile (· ≠ 0), (List.flatMap lowerUnit ·)⟩

theorem lowerUnit_ne {u : ℕ} (h : u ≠ 0x130) : lowerUnit u = [tolower u] := if_neg h

theorem lowerUnit_dot : lowerUnit 0x130 = [0x69, 0x307] := if_pos rfl

theorem encode_lowered (c : ℕ) :
    (Encoding.utf16.encode c).flatMap lowerUnit = Encoding.utf16.text (lowerUnit c) := by
  by_cases hdot : c = 0x130
  · rw [hdot, lowerUnit_dot]
    decide
  · have htext : Encoding.utf16.text (lowerUnit c) = Encoding.utf16.encode (tolower c) := by
      rw [lowerUnit_ne hdot, Encoding.text_cons]
      exact List.append_nil _
    rw [htext]
    by_cases hascii : c < 128
    · rw [Encoding.utf16.ascii c hascii, Encoding.utf16.ascii _ (tolower_ascii hascii),
        List.flatMap_singleton, lowerUnit_ne hdot]
    · rw [tolower_wide (by omega)]
      have hunits : ∀ u ∈ Encoding.utf16.encode c, lowerUnit u = [u] := by
        intro u hu
        have hwide := (Encoding.utf16.wide c (by omega)).2 u hu
        have hunot : u ≠ 0x130 := by
          rintro rfl
          have hu : 0x130 ∈ Encoding.utf16Units c := hu
          rw [Encoding.utf16Units] at hu
          split at hu
          · exact hdot (List.mem_singleton.mp hu).symm
          · simp only [List.mem_cons, List.not_mem_nil, or_false] at hu
            omega
        rw [lowerUnit_ne hunot, tolower_wide hwide]
      rw [List.flatMap_congr hunits]
      exact List.flatMap_singleton' _

theorem text_lowered (t : List ℕ) :
    (Encoding.utf16.text t).flatMap lowerUnit = Encoding.utf16.text (t.flatMap lowerUnit) := by
  rw [Encoding.text, Encoding.text, List.flatMap_assoc, List.flatMap_assoc]
  exact List.flatMap_congr fun c _ => encode_lowered c

theorem lowerUnit_ascii {c : ℕ} (hc : c < 128) : lowerUnit c = [tolower c] ∧ dotted c = 0 := by
  have hdot : c ≠ 0x130 := by omega
  exact ⟨lowerUnit_ne hdot, if_neg hdot⟩

theorem lowerUnit_wide {c : ℕ} (hc : 128 ≤ c) : Foreign (lowerUnit c) ∧
    (Encoding.utf16.text (lowerUnit c)).length = (Encoding.utf16.encode c).length + dotted c := by
  by_cases hdot : c = 0x130
  · rw [hdot, lowerUnit_dot]
    exact ⟨Or.inr rfl, by decide⟩
  · rw [lowerUnit_ne hdot, tolower_wide hc, dotted, if_neg hdot, Encoding.text_cons]
    exact ⟨Or.inl ⟨c, rfl, wide_not_mem hc⟩, congrArg List.length (List.append_nil _)⟩

theorem dottedQt_lowering : Lowering Encoding.utf16 dottedQt.toLower lowerUnit dotted where
  text t _ := text_lowered t
  ascii _ hc := lowerUnit_ascii hc
  wide _ hc := lowerUnit_wide hc

def movedLine : List ℕ := codes "HTTP/1.1 301 Moved Permanently"

def located : Header where
  name := codes "LOCATION"
  value := codes "http://example.org/"
  name_line := by decide
  name_plain := by decide
  value_line := by decide

def contentLocated : Header where
  name := codes "Content-Location"
  value := codes "/index.html"
  name_line := by decide
  name_plain := by decide
  value_line := by decide

theorem location_exact_moved :
    let head : Head := ⟨movedLine, [located, contentLocated], by decide⟩
    locationOf (Encoding.utf8.text head.text) = head.location.map Encoding.utf8.text ∧
      remoteLocationOf dottedQt (Encoding.utf16.text head.text) =
        head.location.map Encoding.utf16.text :=
  (location_exact_iff dottedQt dottedQt_lowering
    ⟨movedLine, [located, contentLocated], by decide⟩).mpr
    ⟨Or.inl (by decide), Or.inl (by decide)⟩

/-- A Content-Location is taken for the Location. -/
theorem content_location_shadows :
    ¬∀ head : Head,
      locationOf (Encoding.utf8.text head.text) = head.location.map Encoding.utf8.text ∧
        remoteLocationOf dottedQt (Encoding.utf16.text head.text) =
          head.location.map Encoding.utf16.text := by
  intro h
  have hworker := (h ⟨movedLine, [contentLocated, located], by decide⟩).1
  exact absurd hworker (by decide +kernel)

end LocationHeader
