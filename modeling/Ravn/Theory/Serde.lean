import Ravn.Theory.BTreeMap
import Ravn.Theory.JsonParse
import Mathlib.Data.List.Basic
import Mathlib.Data.String.Basic

/-! Typed values in a document, by the rules of serde's derived readers: a struct is an object, or an
array of its fields in declaration order; an internally tagged enum keeps its variant's name beside
the variant's own fields; an absent field takes its default. Only whether a document is accepted, and
as which value, is modelled, not the text of an error. -/

namespace Ravn.Theory

namespace Doc

/-! ## Scalars and lists -/

def asStr : Doc → Option String
  | .str s => some s
  | _ => none

def asBool : Doc → Option Bool
  | .bool b => some b
  | _ => none

/-- An unsigned integer below a bound. -/
def asUnsigned (bound : Nat) : Doc → Option Nat
  | .num (some n) => if 0 ≤ n ∧ n.toNat < bound then some n.toNat else none
  | _ => none

def asU8 (d : Doc) : Option UInt8 := (d.asUnsigned UInt8.size).map UInt8.ofNat

def asU32 (d : Doc) : Option UInt32 := (d.asUnsigned UInt32.size).map UInt32.ofNat

def asU64 (d : Doc) : Option UInt64 := (d.asUnsigned UInt64.size).map UInt64.ofNat

def asList (f : Doc → Option α) : Doc → Option (List α)
  | .arr ds => ds.mapM f
  | _ => none

def asOption (f : Doc → Option α) : Doc → Option (Option α)
  | .null => some none
  | d => (f d).map some

/-- A sorted map with texts as keys; of repeated keys the last one counts. -/
def asMap (f : Doc → Option α) : Doc → Option (BTreeMap String α)
  | .obj ms => ms.foldlM (fun m e => (f e.2).map (m.insert e.1)) .empty
  | _ => none

/-! ## Structs -/

/-- The fields of a struct by name. In an object no field of the struct may be repeated, and members
that are no field are ignored; an array may be too short, not too long. -/
def fields (names : List String) : Doc → Option (List (String × Doc))
  | .obj ms => if ((ms.map Prod.fst).filter (· ∈ names)).Nodup then some ms else none
  | .arr ds => if ds.length ≤ names.length then some (names.zip ds) else none
  | _ => none

/-- A field without a default. -/
def required (fs : List (String × Doc)) (name : String) (f : Doc → Option α) : Option α :=
  (fs.lookup name).bind f

/-- A field that may be absent. -/
def withDefault (fs : List (String × Doc)) (name : String) (f : Doc → Option α) (default : α) :
    Option α :=
  match fs.lookup name with
  | none => some default
  | some d => f d

/-! ## Numbers out of range -/

mutual

/-- No number of the document is beyond the range of a double. A reader that keeps a document stops at
such a number; one that ignores it does not. -/
def inRange : Doc → Bool
  | .huge => false
  | .arr ds => elemsInRange ds
  | .obj ms => membersInRange ms
  | _ => true

def elemsInRange : List Doc → Bool
  | [] => true
  | d :: ds => inRange d && elemsInRange ds

def membersInRange : List (String × Doc) → Bool
  | [] => true
  | (_, d) :: ms => inRange d && membersInRange ms

end

theorem elemsInRange_iff {ds : List Doc} : elemsInRange ds ↔ ∀ d ∈ ds, d.inRange := by
  induction ds with
  | nil => simp [elemsInRange]
  | cons d ds ih => simp [elemsInRange, ih]

theorem membersInRange_iff {ms : List (String × Doc)} :
    membersInRange ms ↔ ∀ m ∈ ms, m.2.inRange := by
  induction ms with
  | nil => simp [membersInRange]
  | cons m ms ih =>
    obtain ⟨k, d⟩ := m
    simp [membersInRange, ih]

/-! ## Enums -/

/-- The variant of an internally tagged enum, and what is left for its fields. All of that is kept
until the variant is known. -/
def tagged (tag : String) : Doc → Option (String × Doc)
  | .obj ms =>
    match ms.filter (·.1 = tag) with
    | [(_, .str variant)] =>
      let rest := ms.filter (·.1 ≠ tag)
      if membersInRange rest then some (variant, .obj rest) else none
    | _ => none
  | .arr (.str variant :: ds) => if elemsInRange ds then some (variant, .arr ds) else none
  | _ => none

/-- A variant without fields of an externally tagged enum. -/
def unitVariant : Doc → Option String
  | .str variant => some variant
  | .obj [(variant, .null)] => some variant
  | _ => none

/-! ## Reading what was written -/

@[simp] theorem asStr_str (s : String) : asStr (Json.toDoc (.str s)) = some s := rfl

@[simp] theorem asBool_bool (b : Bool) : asBool (Json.toDoc (.bool b)) = some b := rfl

theorem asUnsigned_num (h : n < bound) (hbound : bound ≤ 2 ^ 64) :
    asUnsigned bound (Json.toDoc (.num n)) = some n := by
  have hlt : n < 2 ^ 64 := Nat.lt_of_lt_of_le h hbound
  have hsign : ¬(n : Int) < 0 := by omega
  have hvalue : Json.intValue (decide ((n : Int) < 0)) (n : Int).natAbs = some (n : Int) := by
    rw [decide_eq_false hsign, Int.natAbs_natCast]
    exact if_pos hlt
  have hn : 0 ≤ (n : Int) ∧ (n : Int).toNat < bound := ⟨Int.natCast_nonneg n, h⟩
  rw [Json.toDoc_num (by rwa [Int.natAbs_natCast]), hvalue, asUnsigned, if_pos hn, Int.toNat_natCast]

@[simp] theorem asU8_num (n : UInt8) : asU8 (Json.toDoc (.num n.toNat)) = some n := by
  rw [asU8, asUnsigned_num n.toNat_lt (by decide), Option.map_some, UInt8.ofNat_toNat]

@[simp] theorem asU32_num (n : UInt32) : asU32 (Json.toDoc (.num n.toNat)) = some n := by
  rw [asU32, asUnsigned_num n.toNat_lt (by decide), Option.map_some, UInt32.ofNat_toNat]

@[simp] theorem asU64_num (n : UInt64) : asU64 (Json.toDoc (.num n.toNat)) = some n := by
  rw [asU64, asUnsigned_num n.toNat_lt (by decide), Option.map_some, UInt64.ofNat_toNat]

/-- A present value is not the one that stands for absence. -/
theorem asOption_some {f : Doc → Option α} (hnull : f .null = none) (h : f d = some a) :
    asOption f d = some (some a) := by
  cases d with
  | null => exact absurd (hnull.symm.trans h) (by simp)
  | _ => simp [asOption, h]

theorem toDocs_eq_map (vs : List Json) : Json.toDocs vs = vs.map Json.toDoc := by
  induction vs with
  | nil => rfl
  | cons v vs ih => rw [Json.toDocs, ih, List.map_cons]

theorem toMembers_eq_map (ms : List (String × Json)) :
    Json.toMembers ms = ms.map fun (k, v) => (k, Json.toDoc v) := by
  induction ms with
  | nil => rfl
  | cons m ms ih =>
    obtain ⟨k, v⟩ := m
    rw [Json.toMembers, ih, List.map_cons]

@[simp] theorem inRange_null : (Json.toDoc .null).inRange := rfl

@[simp] theorem inRange_bool (b : Bool) : (Json.toDoc (.bool b)).inRange := rfl

@[simp] theorem inRange_str (s : String) : (Json.toDoc (.str s)).inRange := rfl

theorem inRange_num {n : Int} (h : n.natAbs < 2 ^ 64) : (Json.toDoc (.num n)).inRange := by
  rw [Json.toDoc_num h]
  rfl

@[simp] theorem inRange_u8 (n : UInt8) : (Json.toDoc (.num n.toNat)).inRange :=
  inRange_num (Nat.lt_trans n.toNat_lt (by decide))

@[simp] theorem inRange_u32 (n : UInt32) : (Json.toDoc (.num n.toNat)).inRange :=
  inRange_num (Nat.lt_trans n.toNat_lt (by decide))

@[simp] theorem inRange_u64 (n : UInt64) : (Json.toDoc (.num n.toNat)).inRange :=
  inRange_num n.toNat_lt

@[simp] theorem inRange_arr {vs : List Json} :
    (Json.toDoc (.arr vs)).inRange ↔ ∀ v ∈ vs, v.toDoc.inRange := by
  rw [Json.toDoc, inRange, elemsInRange_iff, toDocs_eq_map, List.forall_mem_map]

@[simp] theorem inRange_obj {ms : List (String × Json)} :
    (Json.toDoc (.obj ms)).inRange ↔ ∀ m ∈ ms, m.2.toDoc.inRange := by
  rw [Json.toDoc, inRange, membersInRange_iff, toMembers_eq_map, List.forall_mem_map]

/-- An object with its tag in front. -/
theorem tagged_cons {tag variant : String} {ms : List (String × Json)} (h : ∀ m ∈ ms, m.1 ≠ tag)
    (hrange : ∀ m ∈ ms, m.2.toDoc.inRange) :
    tagged tag (Json.toDoc (.obj ((tag, .str variant) :: ms))) =
      some (variant, Json.toDoc (.obj ms)) := by
  have hne : ∀ m ∈ Json.toMembers ms, m.1 ≠ tag := by
    intro m hm
    rw [toMembers_eq_map] at hm
    obtain ⟨e, he, rfl⟩ := List.mem_map.mp hm
    exact h e he
  have htag : (Json.toMembers ms).filter (·.1 = tag) = [] := by
    rw [List.filter_eq_nil_iff]
    simpa using hne
  have hrest : (Json.toMembers ms).filter (·.1 ≠ tag) = Json.toMembers ms := by
    rw [List.filter_eq_self]
    simpa using hne
  have hkept : membersInRange (Json.toMembers ms) := by
    rw [membersInRange_iff, toMembers_eq_map, List.forall_mem_map]
    exact hrange
  rw [Json.toDoc, Json.toMembers, tagged, List.filter_cons_of_pos (by simp), htag,
    List.filter_cons_of_neg (by simp), hrest, Json.toDoc, Json.toDoc]
  exact if_pos hkept

theorem asList_map {f : Doc → Option α} {g : α → Json} (h : ∀ a, f (g a).toDoc = some a)
    (l : List α) : asList f (Json.toDoc (.arr (l.map g))) = some l := by
  rw [Json.toDoc, toDocs_eq_map, asList]
  induction l with
  | nil => rfl
  | cons a l ih =>
    simp only [List.map_cons, List.mapM_cons, h a, ih]
    rfl

theorem asMap_entries {f : Doc → Option α} {g : α → Json} (h : ∀ a, f (g a).toDoc = some a)
    (m : BTreeMap String α) :
    asMap f (Json.toDoc (.obj (m.entries.map fun e => (e.1, g e.2)))) = some m := by
  rw [Json.toDoc, toMembers_eq_map, List.map_map, asMap, List.foldlM_map]
  simp only [Function.comp_apply, h, Option.map_some]
  exact (List.foldlM_pure).trans (congrArg some m.ofList_entries)

/-- An object whose members are fields of the struct, in the struct's order. -/
theorem fields_of_sublist {names : List String} (hnames : names.Nodup) {ms : List (String × Json)}
    (h : (ms.map Prod.fst).Sublist names) :
    fields names (Json.toDoc (.obj ms)) = some (Json.toMembers ms) := by
  have hkeys : (Json.toMembers ms).map Prod.fst = ms.map Prod.fst := by
    rw [toMembers_eq_map, List.map_map]
    rfl
  have hnodup : (((Json.toMembers ms).map Prod.fst).filter (· ∈ names)).Nodup := by
    rw [hkeys]
    exact (hnames.sublist h).filter _
  rw [Json.toDoc, fields, if_pos hnodup]

@[simp] theorem lookup_toMembers_nil (key : String) : (Json.toMembers []).lookup key = none := rfl

@[simp] theorem lookup_toMembers_cons (key name : String) (v : Json) (ms : List (String × Json)) :
    (Json.toMembers ((name, v) :: ms)).lookup key =
      if key = name then some v.toDoc else (Json.toMembers ms).lookup key := by
  rw [Json.toMembers, List.lookup_cons]
  by_cases hkey : key = name
  · simp [hkey]
  · simp [hkey, beq_eq_false_iff_ne.mpr hkey]

@[simp] theorem lookup_toMembers_append (key : String) (ms ns : List (String × Json)) :
    (Json.toMembers (ms ++ ns)).lookup key =
      ((Json.toMembers ms).lookup key).or ((Json.toMembers ns).lookup key) := by
  simp only [toMembers_eq_map, List.map_append, List.lookup_append]

/-- The members that an optional field is written as. -/
@[simp] theorem lookup_optional (name key : String) (o : Option α) (f : α → Json) :
    (Json.toMembers (o.toList.map fun a => (name, f a))).lookup key =
      if key = name then o.map fun a => (f a).toDoc else none := by
  cases o with
  | none => simp
  | some a => simp

/-- The members that a list is written as if it is skipped when it is empty. -/
@[simp] theorem lookup_unless_nil [DecidableEq α] (name key : String) (l : List α) (g : α → Json) :
    (Json.toMembers (if l = [] then [] else [(name, .arr (l.map g))])).lookup key =
      if key = name then if l = [] then none else some (Json.toDoc (.arr (l.map g))) else none := by
  by_cases hl : l = []
  · simp [hl]
  · simp [hl]

/-- The member that a text is written as if it is skipped when it is empty. -/
@[simp] theorem lookup_unless_empty (name key s : String) :
    (Json.toMembers (if s = "" then [] else [(name, .str s)])).lookup key =
      if key = name then if s = "" then none else some (Json.toDoc (.str s)) else none := by
  by_cases hs : s = ""
  · simp [hs]
  · simp [hs]

theorem map_fst_optional (name : String) (o : Option α) (f : α → Json) :
    ((o.toList.map fun a => (name, f a)).map Prod.fst).Sublist [name] := by
  cases o with
  | none => exact List.nil_sublist _
  | some a => exact List.Sublist.refl _

theorem map_fst_unless_nil [DecidableEq α] (name : String) (l : List α) (g : α → Json) :
    ((if l = [] then [] else [(name, Json.arr (l.map g))]).map Prod.fst).Sublist [name] := by
  split
  · exact List.nil_sublist _
  · exact List.Sublist.refl _

theorem map_fst_unless_empty (name s : String) :
    ((if s = "" then [] else [(name, Json.str s)]).map Prod.fst).Sublist [name] := by
  split
  · exact List.nil_sublist _
  · exact List.Sublist.refl _

/-- An optional field that is skipped when it has no value. -/
theorem withDefault_optional {f : Doc → Option α} {g : α → Json} (hnull : f .null = none)
    (h : ∀ a, f (g a).toDoc = some a) {o : Option α}
    (hfs : fs.lookup name = o.map fun a => (g a).toDoc) :
    withDefault fs name (asOption f) none = some o := by
  cases o with
  | none => simp [withDefault, hfs]
  | some a => simp [withDefault, hfs, asOption_some hnull (h a)]

/-- A list field that is skipped when it is empty. -/
theorem withDefault_list {f : Doc → Option α} {g : α → Json} (h : ∀ a, f (g a).toDoc = some a)
    {l : List α}
    (hfs : fs.lookup name = if l = [] then none else some (Json.toDoc (.arr (l.map g)))) :
    withDefault fs name (asList f) [] = some l := by
  by_cases hl : l = []
  · simp [withDefault, hfs, hl]
  · simp [withDefault, hfs, hl, asList_map h]

/-- A text that is skipped when it is empty. -/
theorem withDefault_str {s : String}
    (hfs : fs.lookup name = if s = "" then none else some (Json.toDoc (.str s))) :
    withDefault fs name asStr "" = some s := by
  by_cases hs : s = ""
  · simp [withDefault, hfs, hs]
  · simp [withDefault, hfs, hs]

end Doc

end Ravn.Theory
