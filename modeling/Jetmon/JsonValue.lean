import Mathlib

/-! JSON values as a script sees them: looking up a member, and the conversions of the
operators `+` and `==`. The kind of numbers and their own conversions are left open. -/
namespace JsonValue

inductive Json (ν : Type*) where
  | null
  | bool (b : Bool)
  | num (n : ν)
  | str (s : String)
  | arr (items : List (Json ν))
  | obj (members : List (String × Json ν))

variable {ν : Type*}

structure Closed (motive : Json ν → Prop) : Prop where
  null : motive .null
  bool : ∀ b, motive (.bool b)
  num : ∀ n, motive (.num n)
  str : ∀ s, motive (.str s)
  arr : ∀ items, (∀ v ∈ items, motive v) → motive (.arr items)
  obj : ∀ members, (∀ m ∈ members, motive m.2) → motive (.obj members)

mutual

theorem Closed.all {motive : Json ν → Prop} (h : Closed motive) : ∀ v, motive v
  | .null => h.null
  | .bool b => h.bool b
  | .num n => h.num n
  | .str s => h.str s
  | .arr items => h.arr items (h.all_items items)
  | .obj members => h.obj members (h.all_members members)

theorem Closed.all_items {motive : Json ν → Prop} (h : Closed motive) :
    ∀ items : List (Json ν), ∀ v ∈ items, motive v
  | [] => fun _ hv => absurd hv List.not_mem_nil
  | v :: rest => List.forall_mem_cons.mpr ⟨h.all v, h.all_items rest⟩

theorem Closed.all_members {motive : Json ν → Prop} (h : Closed motive) :
    ∀ members : List (String × Json ν), ∀ m ∈ members, motive m.2
  | [] => fun _ hm => absurd hm List.not_mem_nil
  | (_, v) :: rest => List.forall_mem_cons.mpr ⟨h.all v, h.all_members rest⟩

end

def lookup (key : String) (members : List (String × Json ν)) : Option (Json ν) :=
  (members.find? fun m => m.1 == key).map Prod.snd

def Json.get (key : String) : Json ν → Option (Json ν)
  | .obj members => lookup key members
  | .null | .bool _ | .num _ | .str _ | .arr _ => none

def setMember (key : String) (value : Json ν) : List (String × Json ν) → List (String × Json ν)
  | [] => [(key, value)]
  | m :: rest => if m.1 == key then (key, value) :: rest else m :: setMember key value rest

/-- Assigning to a member; on a value that is no object nothing is kept. -/
def Json.set (v : Json ν) (key : String) (value : Json ν) : Json ν :=
  match v with
  | .obj members => .obj (setMember key value members)
  | .null | .bool _ | .num _ | .str _ | .arr _ => v

theorem lookup_setMember (key : String) (value : Json ν) (members : List (String × Json ν)) :
    lookup key (setMember key value members) = some value := by
  induction members with
  | nil => simp [lookup, setMember]
  | cons m rest ih =>
    by_cases h : (m.1 == key) = true
    · simp [lookup, setMember, h]
    · simpa [lookup, setMember, h] using ih

theorem lookup_setMember_ne {key key' : String} (h : key' ≠ key) (value : Json ν)
    (members : List (String × Json ν)) :
    lookup key' (setMember key value members) = lookup key' members := by
  induction members with
  | nil => simp [lookup, setMember, Ne.symm h]
  | cons m rest ih =>
    simp only [lookup, setMember] at ih ⊢
    by_cases hm : (m.1 == key) = true
    · have hk : m.1 = key := beq_iff_eq.mp hm
      simp [hk, Ne.symm h]
    · rw [if_neg hm, List.find?_cons, List.find?_cons]
      split
      · rfl
      · exact ih

theorem mem_of_lookup {key : String} {value : Json ν} {members : List (String × Json ν)}
    (h : lookup key members = some value) : (key, value) ∈ members := by
  obtain ⟨m, hfind, rfl⟩ := Option.map_eq_some_iff.mp h
  have hkey : m.1 = key := by simpa using List.find?_some hfind
  exact hkey ▸ List.mem_of_find?_eq_some hfind

theorem mem_setMember {key : String} {value : Json ν} {members : List (String × Json ν)}
    {m : String × Json ν} (h : m ∈ setMember key value members) :
    m = (key, value) ∨ m ∈ members := by
  induction members with
  | nil => exact .inl (List.mem_singleton.mp h)
  | cons first rest ih =>
    rw [setMember] at h
    split at h
    · rcases List.mem_cons.mp h with rfl | h
      · exact .inl rfl
      · exact .inr (List.mem_cons_of_mem _ h)
    · rcases List.mem_cons.mp h with rfl | h
      · exact .inr List.mem_cons_self
      · exact (ih h).imp_right (List.mem_cons_of_mem _)

theorem keys_setMember (key : String) (value : Json ν) (members : List (String × Json ν)) :
    (setMember key value members).map Prod.fst =
      if key ∈ members.map Prod.fst then members.map Prod.fst
      else members.map Prod.fst ++ [key] := by
  induction members with
  | nil => simp [setMember]
  | cons m rest ih =>
    rw [setMember]
    by_cases hm : m.1 = key
    · simp [hm]
    · rw [if_neg (by simpa using hm), List.map_cons, ih]
      by_cases hrest : key ∈ rest.map Prod.fst
      · simp only [List.map_cons, List.mem_cons, hrest, or_true, if_true]
      · simp only [List.map_cons, List.mem_cons, hrest, Ne.symm hm, or_self, if_false,
          List.cons_append]

theorem keys_setMember_nodup {members : List (String × Json ν)}
    (h : (members.map Prod.fst).Nodup) (key : String) (value : Json ν) :
    ((setMember key value members).map Prod.fst).Nodup := by
  rw [keys_setMember]
  split
  · exact h
  · rw [← List.concat_eq_append]
    exact h.concat ‹_›

theorem filter_key {members : List (String × Json ν)} (h : (members.map Prod.fst).Nodup)
    (key : String) :
    members.filter (fun m => m.1 == key) = (lookup key members).toList.map (key, ·) := by
  induction members with
  | nil => rfl
  | cons m rest ih =>
    rw [List.map_cons, List.nodup_cons] at h
    by_cases hm : m.1 = key
    · subst hm
      have hrest : rest.filter (fun m' => m'.1 == m.1) = [] := by
        rw [List.filter_eq_nil_iff]
        intro m' hm' heq
        exact h.1 (eq_of_beq heq ▸ List.mem_map_of_mem hm')
      simp [lookup, hrest]
    · have hne : (m.1 == key) = false := by simpa using hm
      simp only [List.filter_cons, lookup, List.find?_cons, hne, Bool.false_eq_true, if_false]
      exact ih h.2

mutual

def Json.AllNumbers (p : ν → Prop) : Json ν → Prop
  | .num n => p n
  | .arr items => AllItems p items
  | .obj members => AllMembers p members
  | .null | .bool _ | .str _ => True

def AllItems (p : ν → Prop) : List (Json ν) → Prop
  | [] => True
  | v :: rest => Json.AllNumbers p v ∧ AllItems p rest

def AllMembers (p : ν → Prop) : List (String × Json ν) → Prop
  | [] => True
  | (_, v) :: rest => Json.AllNumbers p v ∧ AllMembers p rest

end

/-- The numbers of the script: `equals` is their `==`, `toNumber` reads a string. -/
structure Numbers (ν : Type*) where
  zero : ν
  one : ν
  equals : ν → ν → Bool
  toNumber : String → ν
  toText : ν → String

/-- ToPrimitive finds nothing to call: the object has its own member "toString", which is
not callable, and its valueOf is the object itself. -/
def hidesToString (members : List (String × Json ν)) : Bool :=
  members.any fun m => m.1 == "toString"

variable (N : Numbers ν)

mutual

/-- The text of a value; `none` when the conversion throws. -/
def Json.text : Json ν → Option String
  | .null => some "null"
  | .bool b => some (if b then "true" else "false")
  | .num n => some (N.toText n)
  | .str s => some s
  | .arr items => (itemTexts items).map (String.intercalate ",")
  | .obj members => if hidesToString members then none else some "[object Object]"

/-- The texts that join puts between commas; null gives an empty one. -/
def itemTexts : List (Json ν) → Option (List String)
  | [] => some []
  | .null :: rest => (itemTexts rest).map ("" :: ·)
  | v :: rest => (Json.text v).bind fun s => (itemTexts rest).map (s :: ·)

end

mutual

def Json.Textual : Json ν → Prop
  | .arr items => ItemsTextual items
  | .obj members => hidesToString members = false
  | .null | .bool _ | .num _ | .str _ => True

def ItemsTextual : List (Json ν) → Prop
  | [] => True
  | v :: rest => Json.Textual v ∧ ItemsTextual rest

end

mutual

theorem text_isSome (v : Json ν) : (Json.text N v).isSome = true ↔ v.Textual := by
  cases v with
  | arr items =>
    rw [Json.text, Json.Textual, Option.isSome_map]
    exact itemTexts_isSome items
  | obj members =>
    rw [Json.text, Json.Textual]
    cases hidesToString members <;> simp
  | null | bool | num | str => simp [Json.text, Json.Textual]

theorem itemTexts_isSome (items : List (Json ν)) :
    (itemTexts N items).isSome = true ↔ ItemsTextual items := by
  cases items with
  | nil => simp [itemTexts, ItemsTextual]
  | cons v rest =>
    have hrest := itemTexts_isSome rest
    have hv := text_isSome v
    rw [ItemsTextual, ← hv, ← hrest]
    cases v with
    | null => simp [itemTexts, Json.text]
    | bool | num | str | arr | obj =>
      rw [itemTexts]
      · cases Json.text N _ <;> simp
      · exact fun h => by contradiction

end

/-- `v == s` for a string `s`; `none` when the comparison throws. -/
def Json.looseEq (v : Json ν) (s : String) : Option Bool :=
  match v with
  | .null => some false
  | .bool b => some (N.equals (if b then N.one else N.zero) (N.toNumber s))
  | .num n => some (N.equals n (N.toNumber s))
  | .str t => some (t == s)
  | .arr _ | .obj _ => (Json.text N v).map (· == s)

def Json.looseZero (v : Json ν) : Option Bool :=
  match v with
  | .null => some false
  | .bool b => some (N.equals N.zero (if b then N.one else N.zero))
  | .num n => some (N.equals N.zero n)
  | .str t => some (N.equals N.zero (N.toNumber t))
  | .arr _ | .obj _ => (Json.text N v).map fun t => N.equals N.zero (N.toNumber t)

theorem looseEq_isSome (v : Json ν) (s : String) :
    (v.looseEq N s).isSome = true ↔ v.Textual := by
  have h := text_isSome N v
  cases v with
  | arr | obj => rw [Json.looseEq, Option.isSome_map, h]
  | null | bool | num | str => simp [Json.looseEq, Json.Textual]

theorem looseZero_isSome (v : Json ν) : (v.looseZero N).isSome = true ↔ v.Textual := by
  have h := text_isSome N v
  cases v with
  | arr | obj => rw [Json.looseZero, Option.isSome_map, h]
  | null | bool | num | str => simp [Json.looseZero, Json.Textual]

end JsonValue
