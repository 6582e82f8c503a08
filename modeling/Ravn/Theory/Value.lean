import Mathlib.Algebra.Group.Int.Defs
import Ravn.Theory.Serde

/-! Values of any shape in a document, as serde_json reads its own `Value`: an object is a sorted map,
and of repeated names the last one counts. A struct with a flattened map collects there the members
that are none of its fields. A reader that keeps what it reads stops at `recursionLimit`: a text is
read only if it is not nested too deep. -/

namespace Ravn.Theory

namespace Doc

/-! ## Nesting -/

mutual

/-- How many arrays and objects are open at the innermost place of a document. -/
def depth : Doc → Nat
  | .arr ds => depthOfElems ds + 1
  | .obj ms => depthOfMembers ms + 1
  | _ => 0

def depthOfElems : List Doc → Nat
  | [] => 0
  | d :: ds => max (depth d) (depthOfElems ds)

def depthOfMembers : List (String × Doc) → Nat
  | [] => 0
  | (_, d) :: ms => max (depth d) (depthOfMembers ms)

end

/-- The array or object that uses this up is rejected. -/
def recursionLimit : Nat := 128

/-- `Value::get` by a name. -/
def get (key : String) : Doc → Option Doc
  | .obj ms => ms.reverse.lookup key
  | _ => none

theorem depthOfElems_le {ds : List Doc} : depthOfElems ds ≤ n ↔ ∀ d ∈ ds, d.depth ≤ n := by
  induction ds with
  | nil => simp [depthOfElems]
  | cons d ds ih => simp [depthOfElems, ih]

theorem depthOfMembers_le {ms : List (String × Doc)} :
    depthOfMembers ms ≤ n ↔ ∀ m ∈ ms, m.2.depth ≤ n := by
  induction ms with
  | nil => simp [depthOfMembers]
  | cons m ms ih =>
    obtain ⟨k, d⟩ := m
    simp [depthOfMembers, ih]

theorem depth_arr_le {ds : List Doc} : (Doc.arr ds).depth ≤ n + 1 ↔ ∀ d ∈ ds, d.depth ≤ n := by
  rw [depth, Nat.add_le_add_iff_right, depthOfElems_le]

theorem depth_obj_le {ms : List (String × Doc)} :
    (Doc.obj ms).depth ≤ n + 1 ↔ ∀ m ∈ ms, m.2.depth ≤ n := by
  rw [depth, Nat.add_le_add_iff_right, depthOfMembers_le]

/-! ## Values -/

mutual

/-- A document as a value whose numbers are integers; one with any other number has no such value. -/
def asValue : Doc → Option Json
  | .null => some .null
  | .bool b => some (.bool b)
  | .num n => n.map .num
  | .huge => none
  | .str s => some (.str s)
  | .arr ds => (asValues ds).map .arr
  | .obj ms => (asMembers ms).map fun ms => .obj (BTreeMap.ofList ms).entries

def asValues : List Doc → Option (List Json)
  | [] => some []
  | d :: ds => (asValue d).bind fun v => (asValues ds).map (v :: ·)

def asMembers : List (String × Doc) → Option (List (String × Json))
  | [] => some []
  | (k, d) :: ms => (asValue d).bind fun v => (asMembers ms).map ((k, v) :: ·)

end

theorem depth_of_isNumber {d : Doc} (h : d.IsNumber) : d.depth = 0 := by
  cases d with
  | num n => rfl
  | huge => rfl
  | _ => cases h

end Doc

namespace Json

/-- How deep the text of a value is nested. -/
def depth (v : Json) : Nat := v.toDoc.depth

@[simp] theorem depth_bool (b : Bool) : (Json.bool b).depth = 0 := rfl

@[simp] theorem depth_num (n : Int) : (Json.num n).depth = 0 :=
  Doc.depth_of_isNumber (isNumber_toDoc n)

@[simp] theorem depth_str (s : String) : (Json.str s).depth = 0 := rfl

mutual

/-- A value that a `serde_json::Value` can hold: an integer is an `i64` or a `u64`, and an object is
a sorted map. -/
def IsValue : Json → Prop
  | .num n => -2 ^ 63 ≤ n ∧ n < 2 ^ 64
  | .arr vs => AreValues vs
  | .obj ms => (ms.Pairwise fun a b => a.1 < b.1) ∧ AreMembers ms
  | _ => True

def AreValues : List Json → Prop
  | [] => True
  | v :: vs => IsValue v ∧ AreValues vs

def AreMembers : List (String × Json) → Prop
  | [] => True
  | (_, v) :: ms => IsValue v ∧ AreMembers ms

end

theorem areMembers_iff {ms : List (String × Json)} : AreMembers ms ↔ ∀ m ∈ ms, m.2.IsValue := by
  induction ms with
  | nil => simp [AreMembers]
  | cons m ms ih =>
    obtain ⟨k, v⟩ := m
    simp [AreMembers, ih]

theorem intValue_natAbs {n : Int} (h : -2 ^ 63 ≤ n ∧ n < 2 ^ 64) :
    intValue (n < 0) n.natAbs = some n := by
  rw [intValue]
  by_cases hsign : n < 0
  · have hrange : 0 < n.natAbs ∧ n.natAbs ≤ 2 ^ 63 := by omega
    have hn : -(n.natAbs : Int) = n := by omega
    rw [decide_eq_true hsign, if_pos rfl, if_pos hrange, hn]
  · have hrange : n.natAbs < 2 ^ 64 := by omega
    have hn : (n.natAbs : Int) = n := by omega
    rw [decide_eq_false hsign, if_neg Bool.false_ne_true, if_pos hrange, hn]

end Json

namespace Doc

theorem ofList_sorted {es : List (String × Json)} (h : es.Pairwise fun a b => a.1 < b.1) :
    (BTreeMap.ofList es).entries = es :=
  congrArg BTreeMap.entries (BTreeMap.ofList_entries ⟨es, h⟩)

mutual

/-- A value that was written is read back. -/
theorem asValue_toDoc : ∀ v : Json, v.IsValue → asValue v.toDoc = some v
  | .null, _ | .bool _, _ | .str _, _ => rfl
  | .num n, h => by
    have hfits : n.natAbs < 2 ^ 64 := by
      have hrange : -2 ^ 63 ≤ n ∧ n < 2 ^ 64 := h
      omega
    rw [Json.toDoc_num hfits, Json.intValue_natAbs h, asValue, Option.map_some]
  | .arr vs, h => by
    rw [Json.toDoc, asValue, asValues_toDocs vs h, Option.map_some]
  | .obj ms, h => by
    rw [Json.toDoc, asValue, asMembers_toMembers ms h.2, Option.map_some, ofList_sorted h.1]

theorem asValues_toDocs : ∀ vs : List Json, Json.AreValues vs → asValues (Json.toDocs vs) = some vs
  | [], _ => rfl
  | v :: vs, h => by
    rw [Json.toDocs, asValues, asValue_toDoc v h.1, Option.bind_some, asValues_toDocs vs h.2,
      Option.map_some]

theorem asMembers_toMembers : ∀ ms : List (String × Json), Json.AreMembers ms →
    asMembers (Json.toMembers ms) = some ms
  | [], _ => rfl
  | (k, v) :: ms, h => by
    rw [Json.toMembers, asMembers, asValue_toDoc v h.1, Option.bind_some,
      asMembers_toMembers ms h.2, Option.map_some]

end

mutual

theorem inRange_toDoc : ∀ v : Json, v.IsValue → v.toDoc.inRange
  | .null, _ | .bool _, _ | .str _, _ => rfl
  | .num n, h => by
    have hrange : -2 ^ 63 ≤ n ∧ n < 2 ^ 64 := h
    exact inRange_num (by omega)
  | .arr vs, h => inRange_arr.mpr (inRange_elems vs h)
  | .obj ms, h => inRange_obj.mpr (inRange_members ms h.2)

theorem inRange_elems : ∀ vs : List Json, Json.AreValues vs → ∀ v ∈ vs, v.toDoc.inRange
  | [], _ => fun _ hv => absurd hv List.not_mem_nil
  | v :: vs, h => List.forall_mem_cons.mpr ⟨inRange_toDoc v h.1, inRange_elems vs h.2⟩

theorem inRange_members : ∀ ms : List (String × Json), Json.AreMembers ms →
    ∀ m ∈ ms, m.2.toDoc.inRange
  | [], _ => fun _ hm => absurd hm List.not_mem_nil
  | (_, v) :: ms, h => List.forall_mem_cons.mpr ⟨inRange_toDoc v h.1, inRange_members ms h.2⟩

end

theorem mem_of_mem_ofList {e : String × Json} {es : List (String × Json)}
    (h : e ∈ (BTreeMap.ofList es).entries) : e ∈ es := by
  have hfold : ∀ (es : List (String × Json)) (m : BTreeMap String Json),
      e ∈ (es.foldl (fun m f => m.insert f.1 f.2) m).entries → e ∈ m.entries ∨ e ∈ es := by
    intro es
    induction es with
    | nil => exact fun m hm => .inl hm
    | cons f es ih =>
      intro m hm
      rcases ih _ hm with hmem | hmem
      · rcases BTreeMap.mem_insertList hmem with rfl | hmem
        · exact .inr List.mem_cons_self
        · exact .inl hmem
      · exact .inr (List.mem_cons_of_mem _ hmem)
  rcases hfold es .empty h with hempty | hmem
  · cases hempty
  · exact hmem

mutual

/-- What is read is nested no deeper than the document. -/
theorem depth_of_asValue : ∀ (d : Doc) {v : Json}, asValue d = some v → v.depth ≤ d.depth
  | .null, v, h | .bool _, v, h | .str _, v, h => by
    cases h
    exact Nat.zero_le _
  | .num n, v, h => by
    obtain ⟨n, -, rfl⟩ := Option.map_eq_some_iff.mp h
    rw [Json.depth_num]
    exact Nat.zero_le _
  | .huge, v, h => by cases h
  | .arr ds, v, h => by
    obtain ⟨vs, hvs, rfl⟩ := Option.map_eq_some_iff.mp h
    rw [Json.depth, Json.toDoc, toDocs_eq_map]
    refine depth_arr_le.mpr fun d hd => ?_
    obtain ⟨v, hv, rfl⟩ := List.mem_map.mp hd
    exact depth_of_asValues ds hvs v hv
  | .obj ms, v, h => by
    obtain ⟨vs, hvs, rfl⟩ := Option.map_eq_some_iff.mp h
    rw [Json.depth, Json.toDoc, toMembers_eq_map]
    refine depth_obj_le.mpr fun e he => ?_
    obtain ⟨f, hf, rfl⟩ := List.mem_map.mp he
    obtain ⟨m, hm, -, hle⟩ := of_asMembers ms hvs f (mem_of_mem_ofList hf)
    exact hle.trans (depthOfMembers_le.mp (Nat.le_refl _) m hm)

theorem depth_of_asValues : ∀ (ds : List Doc) {vs : List Json}, asValues ds = some vs →
    ∀ v ∈ vs, v.depth ≤ depthOfElems ds
  | [], vs, h, v, hv => by
    cases h
    cases hv
  | d :: ds, vs, h, v, hv => by
    obtain ⟨w, hw, hrest⟩ := Option.bind_eq_some_iff.mp h
    obtain ⟨ws, hws, rfl⟩ := Option.map_eq_some_iff.mp hrest
    rcases List.mem_cons.mp hv with rfl | hv
    · exact (depth_of_asValue d hw).trans (Nat.le_max_left _ _)
    · exact (depth_of_asValues ds hws v hv).trans (Nat.le_max_right _ _)

/-- A member that is read comes from one of the same name, nested at least as deep. -/
theorem of_asMembers : ∀ (ms : List (String × Doc)) {vs : List (String × Json)},
    asMembers ms = some vs → ∀ e ∈ vs, ∃ m ∈ ms, m.1 = e.1 ∧ e.2.depth ≤ m.2.depth
  | [], vs, h, e, he => by
    cases h
    cases he
  | (k, d) :: ms, vs, h, e, he => by
    obtain ⟨w, hw, hrest⟩ := Option.bind_eq_some_iff.mp h
    obtain ⟨ws, hws, rfl⟩ := Option.map_eq_some_iff.mp hrest
    rcases List.mem_cons.mp he with rfl | he
    · exact ⟨(k, d), List.mem_cons_self, rfl, depth_of_asValue d hw⟩
    · obtain ⟨m, hm, hme⟩ := of_asMembers ms hws e he
      exact ⟨m, List.mem_cons_of_mem _ hm, hme⟩

end

/-! ## Flattened maps -/

/-- The members of an object that are fields of a struct, and those that are left for its flattened
map. No field may be repeated, and such a struct is not read from an array. -/
def flattened (names : List String) : Doc → Option (List (String × Doc) × List (String × Doc))
  | .obj ms =>
    if ((ms.map Prod.fst).filter (· ∈ names)).Nodup then some (ms.partition (·.1 ∈ names)) else none
  | _ => none

def asExtra (rest : List (String × Doc)) : Option (BTreeMap String Json) :=
  (asMembers rest).map .ofList

theorem asExtra_toMembers {m : BTreeMap String Json} (h : Json.AreMembers m.entries) :
    asExtra (Json.toMembers m.entries) = some m := by
  rw [asExtra, asMembers_toMembers _ h, Option.map_some, m.ofList_entries]

/-- The declared fields and the entries of the flattened map come apart again. -/
theorem flattened_append {names : List String} (hnames : names.Nodup)
    {ms es : List (String × Json)} (hms : (ms.map Prod.fst).Sublist names)
    (hes : ∀ e ∈ es, e.1 ∉ names) :
    flattened names (Json.toDoc (.obj (ms ++ es))) = some (Json.toMembers ms, Json.toMembers es) := by
  have hfields : ∀ m ∈ Json.toMembers ms, m.1 ∈ names := by
    intro m hm
    rw [toMembers_eq_map] at hm
    obtain ⟨e, he, rfl⟩ := List.mem_map.mp hm
    exact hms.subset (List.mem_map_of_mem he)
  have hextra : ∀ m ∈ Json.toMembers es, m.1 ∉ names := by
    intro m hm
    rw [toMembers_eq_map] at hm
    obtain ⟨e, he, rfl⟩ := List.mem_map.mp hm
    exact hes e he
  have happend : Json.toMembers (ms ++ es) = Json.toMembers ms ++ Json.toMembers es := by
    simp only [toMembers_eq_map, List.map_append]
  have hkeys : (Json.toMembers ms).map Prod.fst = ms.map Prod.fst := by
    rw [toMembers_eq_map, List.map_map]
    rfl
  have hfilter : (Json.toMembers (ms ++ es)).filter (·.1 ∈ names) = Json.toMembers ms := by
    rw [happend, List.filter_append, List.filter_eq_self.mpr (by simpa using hfields),
      List.filter_eq_nil_iff.mpr (by simpa using hextra), List.append_nil]
  have hrest : (Json.toMembers (ms ++ es)).filter (fun m => !decide (m.1 ∈ names)) =
      Json.toMembers es := by
    rw [happend, List.filter_append, List.filter_eq_nil_iff.mpr (by simpa using hfields),
      List.filter_eq_self.mpr (by simpa using hextra), List.nil_append]
  have hnodup : (((Json.toMembers (ms ++ es)).map Prod.fst).filter (· ∈ names)).Nodup := by
    rw [List.filter_map]
    have hmap := congrArg (List.map Prod.fst) hfilter
    rw [hkeys] at hmap
    exact hmap ▸ hnames.sublist hms
  rw [Json.toDoc, flattened, if_pos hnodup, List.partition_eq_filter_filter, hfilter]
  exact congrArg (fun rest => some (Json.toMembers ms, rest)) hrest

/-- A struct with a flattened map, from its fields and that map. -/
def ofFlattened (names : List String)
    (f : List (String × Doc) → BTreeMap String Json → Option α) (d : Doc) : Option α :=
  (flattened names d).bind fun (fs, rest) => (asExtra rest).bind (f fs)

/-- An entry of a flattened map is none of the struct's fields, and lies inside the object. -/
theorem of_flattened {names : List String} {d : Doc} {fs rest : List (String × Doc)}
    (h : flattened names d = some (fs, rest)) :
    ∃ ms, d = .obj ms ∧ ∀ m ∈ rest, m ∈ ms ∧ m.1 ∉ names := by
  cases d with
  | obj ms =>
    rw [flattened] at h
    split at h
    · rw [List.partition_eq_filter_filter] at h
      obtain ⟨-, rfl⟩ := Prod.mk.inj (Option.some.inj h)
      exact ⟨ms, rfl, fun m hm => by simpa using List.mem_filter.mp hm⟩
    · cases h
  | _ => cases h

/-- What ties the reader of a struct with a flattened map to its writer: the declared fields are
written in their order, nested once at most and with no number out of range, they are read back, and
the map is kept. -/
structure Flattens (names : List String) (members : α → List (String × Json))
    (extra : α → BTreeMap String Json)
    (ofFields : List (String × Doc) → BTreeMap String Json → Option α) : Prop where
  nodup : names.Nodup
  sublist : ∀ a, ((members a).map Prod.fst).Sublist names
  depth : ∀ a, ∀ m ∈ members a, m.2.depth ≤ 1
  inRange : ∀ a, ∀ m ∈ members a, m.2.toDoc.inRange
  reads : ∀ a, ofFields (Json.toMembers (members a)) (extra a) = some a
  keeps : ∀ {fs e a}, ofFields fs e = some a → extra a = e

namespace Flattens

variable {names : List String} {members : α → List (String × Json)}
  {extra : α → BTreeMap String Json}
  {ofFields : List (String × Doc) → BTreeMap String Json → Option α}

/-- Such a struct is read back if its map keeps clear of the declared names. -/
theorem ofFlattened_toDoc (h : Flattens names members extra ofFields) (a : α)
    (hapart : ∀ e ∈ (extra a).entries, e.1 ∉ names) (hvalues : Json.AreMembers (extra a).entries) :
    ofFlattened names ofFields (Json.toDoc (.obj (members a ++ (extra a).entries))) = some a := by
  rw [ofFlattened, flattened_append h.nodup (h.sublist a) hapart, Option.bind_some]
  simp only [asExtra_toMembers hvalues, Option.bind_some, h.reads a]

/-- The map of a struct that was read keeps clear of the declared names, and its entries come from
members of the object. -/
theorem of_ofFlattened (h : Flattens names members extra ofFields) {d : Doc} {a : α}
    (hread : ofFlattened names ofFields d = some a) :
    ∃ ms, d = .obj ms ∧ ∀ e ∈ (extra a).entries,
      e.1 ∉ names ∧ ∃ m ∈ ms, m.1 = e.1 ∧ e.2.depth ≤ m.2.depth := by
  obtain ⟨⟨fs, rest⟩, hd, hf⟩ := Option.bind_eq_some_iff.mp hread
  obtain ⟨e, he, hf⟩ := Option.bind_eq_some_iff.mp hf
  obtain ⟨es, hes, rfl⟩ := Option.map_eq_some_iff.mp he
  obtain ⟨ms, rfl, hrest⟩ := of_flattened hd
  refine ⟨ms, rfl, fun e he => ?_⟩
  rw [h.keeps hf] at he
  obtain ⟨m, hm, hkey, hdepth⟩ := of_asMembers rest hes e (mem_of_mem_ofList he)
  exact ⟨hkey ▸ (hrest m hm).2, m, (hrest m hm).1, hkey, hdepth⟩

end Flattens

/-- What an internally tagged enum leaves of an object: the members other than the tag. -/
theorem of_tagged {tag variant : String} {d : Doc} {ms : List (String × Doc)}
    (h : tagged tag d = some (variant, .obj ms)) :
    ∃ ns, d = .obj ns ∧ ∀ m ∈ ms, m ∈ ns ∧ m.1 ≠ tag := by
  unfold tagged at h
  split at h
  · rename_i ns
    split at h
    · obtain ⟨-, h⟩ := Option.ite_none_right_eq_some.mp h
      obtain ⟨-, hms⟩ := Prod.mk.inj (Option.some.inj h)
      cases hms
      exact ⟨ns, rfl, fun m hm => by simpa using List.mem_filter.mp hm⟩
    · cases h
  · obtain ⟨-, h⟩ := Option.ite_none_right_eq_some.mp h
    obtain ⟨-, hms⟩ := Prod.mk.inj (Option.some.inj h)
    cases hms
  · cases h

/-! ## Nesting of what is written -/

theorem depth_optional (name : String) (o : Option α) {f : α → Json} (h : ∀ a, (f a).depth ≤ n) :
    ∀ m ∈ o.toList.map fun a => (name, f a), m.2.depth ≤ n := by
  intro m hm
  obtain ⟨a, -, rfl⟩ := List.mem_map.mp hm
  exact h a

theorem depth_unless_empty (name s : String) :
    ∀ m ∈ (if s = "" then [] else [(name, Json.str s)]), m.2.depth ≤ n := by
  intro m hm
  split at hm
  · cases hm
  · obtain rfl := List.mem_singleton.mp hm
    exact Nat.zero_le n

theorem depth_unless_nil [DecidableEq α] (name : String) (l : List α) {g : α → Json}
    (h : ∀ a, (g a).depth ≤ n) :
    ∀ m ∈ (if l = [] then [] else [(name, Json.arr (l.map g))]), m.2.depth ≤ n + 1 := by
  intro m hm
  split at hm
  · cases hm
  · obtain rfl := List.mem_singleton.mp hm
    rw [Json.depth, Json.toDoc, toDocs_eq_map, List.map_map]
    refine depth_arr_le.mpr fun d hd => ?_
    obtain ⟨a, -, rfl⟩ := List.mem_map.mp hd
    exact h a

end Doc

end Ravn.Theory
