import Mathlib.Data.List.Nodup
import Ravn.Theory.Value

/-! Objects whose members come back in another order, as from a column that keeps them sorted. Two
documents are the same up to that order (`Doc.Same`), a value and its sorted form are, and the derived
readers make no difference between such documents (`Doc.Orderless`). -/

namespace Ravn.Theory

/-! ## Lookups -/

theorem getList_eq_lookup {es : List (String × ν)} : BTreeMap.getList es k = es.lookup k := by
  induction es with
  | nil => rfl
  | cons e es ih =>
    obtain ⟨j, v⟩ := e
    rw [BTreeMap.getList, List.lookup_cons, ih]
    by_cases h : k = j
    · simp [h]
    · simp [h, beq_eq_false_iff_ne.mpr h]

theorem lookup_eq_none {es : List (String × ν)} : es.lookup k = none ↔ k ∉ es.map Prod.fst := by
  induction es with
  | nil => simp
  | cons e es ih =>
    obtain ⟨j, v⟩ := e
    rw [List.lookup_cons, List.map_cons, List.mem_cons, not_or]
    by_cases h : k = j
    · simp [h]
    · simp [h, beq_eq_false_iff_ne.mpr h, ih]

theorem mem_of_lookup {es : List (String × ν)} (h : es.lookup k = some v) : (k, v) ∈ es :=
  BTreeMap.mem_of_getList (getList_eq_lookup.trans h)

theorem lookup_of_mem {es : List (String × ν)} (hes : (es.map Prod.fst).Nodup) (h : (k, v) ∈ es) :
    es.lookup k = some v := by
  cases hk : es.lookup k with
  | none => exact absurd (List.mem_map_of_mem h) (lookup_eq_none.mp hk)
  | some w =>
    have heq := List.inj_on_of_nodup_map hes (mem_of_lookup hk) h rfl
    rw [(Prod.mk.inj heq).2]

namespace BTreeMap

/-- A map built from entries with different keys has these entries. -/
theorem get_ofList {es : List (String × ν)} (hes : (es.map Prod.fst).Nodup) :
    (ofList es).get k = es.lookup k := by
  have hfold : ∀ (es : List (String × ν)) (m : BTreeMap String ν), (es.map Prod.fst).Nodup →
      (es.foldl (fun m e => m.insert e.1 e.2) m).get k = (es.lookup k).or (m.get k) := by
    intro es
    induction es with
    | nil => exact fun m _ => rfl
    | cons e es ih =>
      obtain ⟨j, v⟩ := e
      intro m hes
      obtain ⟨hj, hes⟩ := List.nodup_cons.mp hes
      rw [List.foldl_cons, ih _ hes, get_insert, List.lookup_cons]
      by_cases h : k = j
      · subst h
        simp [lookup_eq_none.mpr hj]
      · simp [h, beq_eq_false_iff_ne.mpr h]
  exact (hfold es .empty hes).trans (Option.or_none)

theorem lookup_ofList {es : List (String × ν)} (hes : (es.map Prod.fst).Nodup) (k : String) :
    (ofList es).entries.lookup k = es.lookup k :=
  getList_eq_lookup.symm.trans (get_ofList hes)

theorem insertList_map (f : ν → μ) (k : String) (v : ν) (es : List (String × ν)) :
    insertList k (f v) (es.map fun e => (e.1, f e.2)) =
      (insertList k v es).map fun e => (e.1, f e.2) := by
  induction es with
  | nil => rfl
  | cons e es ih =>
    rw [List.map_cons, insertList, insertList]
    split
    · rfl
    · split
      · rfl
      · exact congrArg (_ :: ·) ih

/-- The values of a list of entries may be changed before or after they are sorted. -/
theorem entries_ofList_map (f : ν → μ) (es : List (String × ν)) :
    (ofList (es.map fun e => (e.1, f e.2))).entries =
      (ofList es).entries.map fun e => (e.1, f e.2) := by
  have hfold : ∀ (es : List (String × ν)) (m : BTreeMap String ν) (n : BTreeMap String μ),
      n.entries = m.entries.map (fun e => (e.1, f e.2)) →
        ((es.map fun e => (e.1, f e.2)).foldl (fun m e => m.insert e.1 e.2) n).entries =
          (es.foldl (fun m e => m.insert e.1 e.2) m).entries.map fun e => (e.1, f e.2) := by
    intro es
    induction es with
    | nil => exact fun _ _ h => h
    | cons e es ih =>
      intro m n h
      refine ih _ _ ?_
      change insertList e.1 (f e.2) n.entries = (insertList e.1 e.2 m.entries).map _
      rw [h, insertList_map]
  exact hfold es .empty .empty rfl

theorem nodup_entries (m : BTreeMap String ν) : (m.entries.map Prod.fst).Nodup :=
  List.pairwise_map.mpr (m.sorted.imp fun h => ne_of_lt h)

end BTreeMap

/-! ## Sorted values -/

namespace Json

mutual

/-- The value with the members of every object sorted, as a `serde_json::Value` has them. -/
def canonical : Json → Json
  | .arr vs => .arr (canonicals vs)
  | .obj ms => .obj (BTreeMap.ofList (canonicalMembers ms)).entries
  | v => v

def canonicals : List Json → List Json
  | [] => []
  | v :: vs => canonical v :: canonicals vs

def canonicalMembers : List (String × Json) → List (String × Json)
  | [] => []
  | (k, v) :: ms => (k, canonical v) :: canonicalMembers ms

end

mutual

/-- No object of the value repeats a name. -/
def UniqueKeys : Json → Prop
  | .arr vs => AllUnique vs
  | .obj ms => (ms.map Prod.fst).Nodup ∧ MembersUnique ms
  | _ => True

def AllUnique : List Json → Prop
  | [] => True
  | v :: vs => UniqueKeys v ∧ AllUnique vs

def MembersUnique : List (String × Json) → Prop
  | [] => True
  | (_, v) :: ms => UniqueKeys v ∧ MembersUnique ms

end

theorem membersUnique_iff {ms : List (String × Json)} :
    MembersUnique ms ↔ ∀ m ∈ ms, m.2.UniqueKeys := by
  induction ms with
  | nil => simp [MembersUnique]
  | cons m ms ih =>
    obtain ⟨k, v⟩ := m
    simp [MembersUnique, ih]

theorem canonicalMembers_eq_map (ms : List (String × Json)) :
    canonicalMembers ms = ms.map fun m => (m.1, m.2.canonical) := by
  induction ms with
  | nil => rfl
  | cons m ms ih =>
    obtain ⟨k, v⟩ := m
    rw [canonicalMembers, ih, List.map_cons]

theorem lookup_map_snd {ms : List (String × α)} (f : α → β) (k : String) :
    (ms.map fun m => (m.1, f m.2)).lookup k = (ms.lookup k).map f := by
  induction ms with
  | nil => rfl
  | cons m ms ih =>
    obtain ⟨j, v⟩ := m
    rw [List.map_cons, List.lookup_cons, List.lookup_cons, ih]
    cases k == j <;> rfl

end Json

/-! ## The same document in another order -/

namespace Doc

open Json

inductive Same : Doc → Doc → Prop
  | null : Same .null .null
  | bool (b : Bool) : Same (.bool b) (.bool b)
  | num (n : Option Int) : Same (.num n) (.num n)
  | huge : Same .huge .huge
  | str (s : String) : Same (.str s) (.str s)
  | arr (h : List.Forall₂ Same ds es) : Same (.arr ds) (.arr es)
  | obj (hms : (ms.map Prod.fst).Nodup) (hns : (ns.map Prod.fst).Nodup)
      (hkeys : ∀ k, k ∈ ms.map Prod.fst ↔ k ∈ ns.map Prod.fst)
      (hsame : ∀ k d e, ms.lookup k = some d → ns.lookup k = some e → Same d e) :
      Same (.obj ms) (.obj ns)

theorem Same.of_isNumber {d : Doc} (h : d.IsNumber) : Same d d := by
  cases d with
  | num n => exact .num n
  | huge => exact .huge
  | _ => cases h

theorem lookup_toMembers (ms : List (String × Json)) (k : String) :
    (toMembers ms).lookup k = (ms.lookup k).map toDoc := by
  rw [toMembers_eq_map]
  exact lookup_map_snd toDoc k

theorem map_fst_toMembers (ms : List (String × Json)) :
    (toMembers ms).map Prod.fst = ms.map Prod.fst := by
  rw [toMembers_eq_map, List.map_map]
  rfl

theorem map_fst_canonicalMembers (ms : List (String × Json)) :
    (canonicalMembers ms).map Prod.fst = ms.map Prod.fst := by
  rw [canonicalMembers_eq_map, List.map_map]
  rfl

mutual

/-- A value and its sorted form are the same document. -/
theorem same_canonical : ∀ v : Json, v.UniqueKeys → Same v.toDoc v.canonical.toDoc
  | .null, _ => .null
  | .bool b, _ => .bool b
  | .num n, _ => .of_isNumber (isNumber_toDoc n)
  | .str s, _ => .str s
  | .arr vs, h => by
    rw [canonical, toDoc, toDoc]
    exact .arr (same_canonicals vs h)
  | .obj ms, h => by
    have hkeys : ((canonicalMembers ms).map Prod.fst).Nodup := by
      rw [map_fst_canonicalMembers]
      exact h.1
    have hlookup : ∀ k, (toMembers (BTreeMap.ofList (canonicalMembers ms)).entries).lookup k =
        (ms.lookup k).map fun v => v.canonical.toDoc := by
      intro k
      rw [lookup_toMembers, BTreeMap.lookup_ofList hkeys, canonicalMembers_eq_map, lookup_map_snd,
        Option.map_map]
      rfl
    rw [canonical, toDoc, toDoc]
    refine .obj ?_ ?_ ?_ ?_
    · rw [map_fst_toMembers]
      exact h.1
    · rw [map_fst_toMembers]
      exact BTreeMap.nodup_entries _
    · intro k
      rw [← not_iff_not, ← lookup_eq_none, ← lookup_eq_none, hlookup, lookup_toMembers,
        Option.map_eq_none_iff, Option.map_eq_none_iff]
    · intro k d e hd he
      rw [lookup_toMembers] at hd
      obtain ⟨v, hv, rfl⟩ := Option.map_eq_some_iff.mp hd
      rw [hlookup, hv, Option.map_some] at he
      cases he
      exact same_members ms h.2 hv

theorem same_canonicals : ∀ vs : List Json, AllUnique vs →
    List.Forall₂ Same (toDocs vs) (toDocs (canonicals vs))
  | [], _ => .nil
  | v :: vs, h => .cons (same_canonical v h.1) (same_canonicals vs h.2)

theorem same_members : ∀ ms : List (String × Json), MembersUnique ms →
    ∀ {k v}, ms.lookup k = some v → Same v.toDoc v.canonical.toDoc
  | [], _, _, _, hv => nomatch hv
  | (j, w) :: ms, h, k, v, hv => by
    rw [List.lookup_cons] at hv
    cases hkj : k == j with
    | true =>
      rw [hkj] at hv
      cases hv
      exact same_canonical w h.1
    | false =>
      rw [hkj] at hv
      exact same_members ms h.2 hv

end

/-! ## Readers -/

/-- A reader that gives the same for the members of an object in another order. -/
structure Orderless (f : Doc → Option α) : Prop where
  same : ∀ {d e : Doc} {a : α}, Same d e → f d = some a → f e = some a

theorem Orderless.bind {f : Doc → Option α} (hf : Orderless f) (g : α → Option β) :
    Orderless fun d => (f d).bind g := by
  refine ⟨@fun d e b h hd => ?_⟩
  obtain ⟨a, ha, hb⟩ := Option.bind_eq_some_iff.mp hd
  exact Option.bind_eq_some_iff.mpr ⟨a, hf.same h ha, hb⟩

theorem Orderless.map {f : Doc → Option α} (hf : Orderless f) (g : α → β) :
    Orderless fun d => (f d).map g := by
  refine ⟨@fun d e b h hd => ?_⟩
  obtain ⟨a, ha, hb⟩ := Option.map_eq_some_iff.mp hd
  exact Option.map_eq_some_iff.mpr ⟨a, hf.same h ha, hb⟩

theorem orderless_asStr : Orderless asStr := by
  refine ⟨@fun d e a h hd => ?_⟩
  cases h with
  | str s => exact hd
  | _ => cases hd

theorem orderless_asUnsigned (bound : Nat) : Orderless (asUnsigned bound) := by
  refine ⟨@fun d e a h hd => ?_⟩
  cases h with
  | num n => exact hd
  | _ => cases hd

theorem orderless_asU32 : Orderless asU32 := (orderless_asUnsigned _).map _

theorem orderless_unitVariant : Orderless unitVariant := by
  refine ⟨@fun d e a h hd => ?_⟩
  unfold unitVariant at hd
  split at hd
  · cases h
    exact hd
  · cases h with
    | @obj _ ns hms hns hkeys hsame =>
      have hperm := (List.perm_ext_iff_of_nodup hms hns).mpr hkeys
      obtain ⟨m, rfl, hm⟩ := List.map_eq_singleton_iff.mp (List.perm_singleton.mp hperm.symm)
      obtain ⟨k, e⟩ := m
      obtain rfl : k = _ := hm
      have hnull := hsame k .null e (by simp) (by simp)
      cases hnull
      exact hd
  · cases hd

theorem Orderless.asList {f : Doc → Option α} (hf : Orderless f) : Orderless (asList f) := by
  refine ⟨@fun d e l h hd => ?_⟩
  cases h with
  | arr h =>
    change List.mapM f _ = _ at hd
    change List.mapM f _ = _
    induction h generalizing l with
    | nil => exact hd
    | cons hde _ ih =>
      rw [List.mapM_cons] at hd ⊢
      obtain ⟨a, ha, hrest⟩ := Option.bind_eq_some_iff.mp hd
      obtain ⟨as, has, hl⟩ := Option.bind_eq_some_iff.mp hrest
      exact Option.bind_eq_some_iff.mpr ⟨a, hf.same hde ha, Option.bind_eq_some_iff.mpr ⟨as, ih as has, hl⟩⟩
  | _ => cases hd

theorem Orderless.asOption {f : Doc → Option α} (hf : Orderless f) : Orderless (asOption f) := by
  refine ⟨@fun d e o h hd => ?_⟩
  cases h with
  | null => exact hd
  | bool b => exact hd
  | num n => exact hd
  | huge => exact hd
  | str s => exact hd
  | arr h => exact (hf.map some).same (.arr h) hd
  | obj hms hns hkeys hsame => exact (hf.map some).same (.obj hms hns hkeys hsame) hd

/-- A map is read entry by entry. -/
theorem asMap_obj (f : Doc → Option α) (ms : List (String × Doc)) :
    asMap f (.obj ms) =
      (ms.mapM fun e => (f e.2).map fun a => (e.1, a)).map BTreeMap.ofList := by
  have hfold : ∀ (ms : List (String × Doc)) (m : BTreeMap String α),
      ms.foldlM (fun m e => (f e.2).map (m.insert e.1)) m =
        (ms.mapM fun e => (f e.2).map fun a => (e.1, a)).map fun es =>
          es.foldl (fun m e => m.insert e.1 e.2) m := by
    intro ms
    induction ms with
    | nil => exact fun m => rfl
    | cons e ms ih =>
      intro m
      rw [List.foldlM_cons, List.mapM_cons]
      cases f e.2 with
      | none => rfl
      | some a =>
        simp only [Option.map_some, Option.bind_eq_bind, Option.bind_some, ih]
        cases ms.mapM fun e => (f e.2).map fun a => (e.1, a) <;> rfl
  exact hfold ms .empty

/-- What the entries of a map are read as, by name. -/
theorem lookup_mapM {f : Doc → Option α} {ms : List (String × Doc)} {es : List (String × α)}
    (h : (ms.mapM fun e => (f e.2).map fun a => (e.1, a)) = some es) :
    es.map Prod.fst = ms.map Prod.fst ∧ ∀ k, es.lookup k = (ms.lookup k).bind f := by
  induction ms generalizing es with
  | nil =>
    cases h
    exact ⟨rfl, fun k => rfl⟩
  | cons m ms ih =>
    obtain ⟨j, d⟩ := m
    rw [List.mapM_cons] at h
    obtain ⟨e, he, hrest⟩ := Option.bind_eq_some_iff.mp h
    obtain ⟨es', hes', hes⟩ := Option.bind_eq_some_iff.mp hrest
    cases hes
    obtain ⟨a, ha, rfl⟩ := Option.map_eq_some_iff.mp he
    obtain ⟨hkeys, hlookup⟩ := ih hes'
    refine ⟨congrArg (j :: ·) hkeys, fun k => ?_⟩
    rw [List.lookup_cons, List.lookup_cons, hlookup]
    cases k == j with
    | true => exact ha.symm
    | false => rfl

theorem mapM_isSome {f : Doc → Option α} {ms : List (String × Doc)}
    (h : ∀ m ∈ ms, (f m.2).isSome) :
    ∃ es, (ms.mapM fun e => (f e.2).map fun a => (e.1, a)) = some es := by
  induction ms with
  | nil => exact ⟨[], rfl⟩
  | cons m ms ih =>
    obtain ⟨a, ha⟩ := Option.isSome_iff_exists.mp (h m List.mem_cons_self)
    obtain ⟨es, hes⟩ := ih fun m hm => h m (List.mem_cons_of_mem _ hm)
    refine ⟨(m.1, a) :: es, ?_⟩
    rw [List.mapM_cons, ha, hes]
    rfl

theorem Orderless.asMap {f : Doc → Option α} (hf : Orderless f) : Orderless (asMap f) := by
  refine ⟨@fun d e m h hd => ?_⟩
  cases h with
  | @obj ms ns hms hns hkeys hsame =>
    rw [asMap_obj] at hd ⊢
    obtain ⟨es, hes, rfl⟩ := Option.map_eq_some_iff.mp hd
    obtain ⟨heskeys, hlookup⟩ := lookup_mapM hes
    -- Each member of the one object is read as its counterpart in the other.
    have hread : ∀ {k d e}, ms.lookup k = some d → ns.lookup k = some e →
        ∃ a, es.lookup k = some a ∧ f d = some a ∧ f e = some a := by
      intro k d e hd he
      have hmem : k ∈ es.map Prod.fst := heskeys ▸ List.mem_map_of_mem (mem_of_lookup hd)
      cases ha : es.lookup k with
      | none => exact absurd hmem (lookup_eq_none.mp ha)
      | some a =>
        have hfd : f d = some a := by
          rw [hlookup, hd] at ha
          exact ha
        exact ⟨a, rfl, hfd, hf.same (hsame k d e hd he) hfd⟩
    have hpartner : ∀ {k e}, ns.lookup k = some e → ∃ d, ms.lookup k = some d := by
      intro k e he
      have hk := (hkeys k).mpr (List.mem_map_of_mem (mem_of_lookup he))
      cases hd : ms.lookup k with
      | none => exact absurd hk (lookup_eq_none.mp hd)
      | some d => exact ⟨d, rfl⟩
    have hall : ∀ n ∈ ns, (f n.2).isSome := by
      intro n hn
      have he := lookup_of_mem hns (k := n.1) (v := n.2) hn
      obtain ⟨d, hd⟩ := hpartner he
      obtain ⟨a, -, -, ha⟩ := hread hd he
      rw [ha]
      rfl
    obtain ⟨fs, hfs⟩ := mapM_isSome hall
    obtain ⟨hfskeys, hlookup'⟩ := lookup_mapM hfs
    rw [hfs, Option.map_some, Option.some.injEq]
    refine BTreeMap.ext_get fun k => ?_
    rw [BTreeMap.get_ofList (hfskeys ▸ hns), BTreeMap.get_ofList (heskeys ▸ hms), hlookup', hlookup]
    cases he : ns.lookup k with
    | none =>
      have hd : ms.lookup k = none :=
        lookup_eq_none.mpr fun hk => lookup_eq_none.mp he ((hkeys k).mp hk)
      rw [hd]
    | some e =>
      obtain ⟨d, hd⟩ := hpartner he
      obtain ⟨a, -, hfd, hfe⟩ := hread hd he
      rw [hd, Option.bind_some, Option.bind_some, hfd, hfe]
  | _ => cases hd

/-! ## Structs -/

/-- The fields of a struct, with the members of their objects in another order. -/
structure SameFields (fs gs : List (String × Doc)) : Prop where
  none : ∀ {k}, fs.lookup k = none → gs.lookup k = none
  some : ∀ {k d}, fs.lookup k = some d → ∃ e, gs.lookup k = some e ∧ Same d e

theorem SameFields.of_obj {ms ns : List (String × Doc)}
    (hkeys : ∀ k, k ∈ ms.map Prod.fst ↔ k ∈ ns.map Prod.fst)
    (hsame : ∀ k d e, ms.lookup k = .some d → ns.lookup k = .some e → Same d e) :
    SameFields ms ns := by
  have hnone : ∀ k, ms.lookup k = .none ↔ ns.lookup k = .none := by
    intro k
    rw [lookup_eq_none, lookup_eq_none, hkeys]
  constructor
  · exact fun h => (hnone _).mp h
  · intro k d hd
    cases he : ns.lookup k with
    | none =>
      rw [(hnone k).mpr he] at hd
      cases hd
    | some e => exact ⟨e, rfl, hsame k d e hd he⟩

theorem SameFields.zip (h : List.Forall₂ Same ds es) (names : List String) :
    SameFields (names.zip ds) (names.zip es) := by
  induction h generalizing names with
  | nil =>
    rw [List.zip_nil_right]
    exact ⟨fun h => h, nofun⟩
  | @cons d e ds es hde _ ih =>
    cases names with
    | nil => exact ⟨fun h => h, nofun⟩
    | cons name names =>
      obtain ⟨hnone, hsome⟩ := ih names
      rw [List.zip_cons_cons, List.zip_cons_cons]
      constructor
      · intro k hk
        rw [List.lookup_cons] at hk ⊢
        cases hname : k == name with
        | true =>
          rw [hname] at hk
          cases hk
        | false =>
          rw [hname] at hk
          exact hnone hk
      · intro k d' hd
        rw [List.lookup_cons] at hd ⊢
        cases hname : k == name with
        | true =>
          rw [hname] at hd
          cases hd
          exact ⟨e, rfl, hde⟩
        | false =>
          rw [hname] at hd
          exact hsome hd

theorem fields_same (h : Same d e) (hd : fields names d = some fs) :
    ∃ gs, fields names e = some gs ∧ SameFields fs gs := by
  cases h with
  | arr h =>
    rw [fields] at hd
    split at hd
    · cases hd
      rename_i hlength
      refine ⟨_, if_pos (h.length_eq ▸ hlength), .zip h names⟩
    · cases hd
  | obj hms hns hkeys hsame =>
    rw [fields] at hd
    split at hd
    · cases hd
      exact ⟨_, if_pos (hns.filter _), .of_obj hkeys hsame⟩
    · cases hd
  | _ => cases hd

/-- A reader of the fields of a struct that gives the same in another order. -/
structure FieldsOrderless (g : List (String × Doc) → Option α) : Prop where
  same : ∀ {fs gs : List (String × Doc)} {a : α}, SameFields fs gs → g fs = some a → g gs = some a

theorem Orderless.required {f : Doc → Option α} (hf : Orderless f) (name : String) :
    FieldsOrderless fun fs => required fs name f := by
  refine ⟨@fun fs gs a h hfs => ?_⟩
  obtain ⟨d, hd, ha⟩ := Option.bind_eq_some_iff.mp hfs
  obtain ⟨e, he, hde⟩ := h.some hd
  exact Option.bind_eq_some_iff.mpr ⟨e, he, hf.same hde ha⟩

theorem Orderless.withDefault {f : Doc → Option α} (hf : Orderless f) (name : String) (default : α) :
    FieldsOrderless fun fs => withDefault fs name f default := by
  refine ⟨@fun fs gs a h hfs => ?_⟩
  unfold Doc.withDefault at hfs ⊢
  cases hd : fs.lookup name with
  | none =>
    rw [hd] at hfs
    rw [h.none hd]
    exact hfs
  | some d =>
    rw [hd] at hfs
    obtain ⟨e, he, hde⟩ := h.some hd
    rw [he]
    exact hf.same hde hfs

theorem FieldsOrderless.bind {g : List (String × Doc) → Option α}
    {k : α → List (String × Doc) → Option β} (hg : FieldsOrderless g)
    (hk : ∀ a, FieldsOrderless (k a)) : FieldsOrderless fun fs => (g fs).bind fun a => k a fs := by
  refine ⟨@fun fs gs b h hfs => ?_⟩
  obtain ⟨a, ha, hb⟩ := Option.bind_eq_some_iff.mp hfs
  exact Option.bind_eq_some_iff.mpr ⟨a, hg.same h ha, (hk a).same h hb⟩

theorem fieldsOrderless_some (a : α) : FieldsOrderless fun _ => some a := ⟨fun _ h => h⟩

theorem FieldsOrderless.struct {g : List (String × Doc) → Option α} (hg : FieldsOrderless g)
    (names : List String) : Orderless fun d => (fields names d).bind g := by
  refine ⟨@fun d e a h hd => ?_⟩
  obtain ⟨fs, hfs, ha⟩ := Option.bind_eq_some_iff.mp hd
  obtain ⟨gs, hgs, hsame⟩ := fields_same h hfs
  exact Option.bind_eq_some_iff.mpr ⟨gs, hgs, hg.same hsame ha⟩

/-! ## Tagged enums -/

theorem filter_eq_singleton {ms : List (String × α)} (hms : (ms.map Prod.fst).Nodup)
    (h : ms.lookup tag = some v) : ms.filter (·.1 = tag) = [(tag, v)] := by
  induction ms with
  | nil => cases h
  | cons m ms ih =>
    obtain ⟨k, w⟩ := m
    obtain ⟨hk, hms⟩ := List.nodup_cons.mp hms
    rw [List.lookup_cons] at h
    cases htag : tag == k with
    | true =>
      rw [htag] at h
      cases h
      obtain rfl := beq_iff_eq.mp htag
      have hrest : ms.filter (·.1 = tag) = [] := by
        refine List.filter_eq_nil_iff.mpr fun m hm => ?_
        rw [decide_eq_true_iff]
        intro heq
        have hmem : m.1 ∈ ms.map Prod.fst := List.mem_map_of_mem hm
        exact hk (heq ▸ hmem)
      rw [List.filter_cons_of_pos (by simp), hrest]
    | false =>
      rw [htag] at h
      have hne : k ≠ tag := fun heq => ne_of_beq_false htag heq.symm
      rw [List.filter_cons_of_neg (by simpa using hne), ih hms h]

theorem lookup_filter_ne (ms : List (String × α)) (tag k : String) :
    (ms.filter (·.1 ≠ tag)).lookup k = if k = tag then none else ms.lookup k := by
  induction ms with
  | nil => simp
  | cons m ms ih =>
    obtain ⟨j, v⟩ := m
    rw [List.filter_cons, List.lookup_cons]
    split
    · rename_i hj
      rw [List.lookup_cons, ih]
      cases hkj : k == j with
      | true =>
        obtain rfl := beq_iff_eq.mp hkj
        exact (if_neg (of_decide_eq_true hj)).symm
      | false => rfl
    · rename_i hj
      rw [ih]
      have hj : j = tag := by simpa using hj
      subst hj
      cases hkj : k == j with
      | true =>
        obtain rfl := beq_iff_eq.mp hkj
        rw [if_pos rfl, if_pos rfl]
      | false => rfl

mutual

/-- A document keeps within range in any order. -/
theorem Same.inRange : ∀ d : Doc, ∀ {e}, Same d e → d.inRange → e.inRange
  | .null, _, .null, _ | .bool _, _, .bool _, _ | .num _, _, .num _, _ | .str _, _, .str _, _ => rfl
  | .arr ds, _, .arr h, hd => elemsInRange_iff.mpr (forall₂_inRange ds h hd)
  | .obj ms, _, .obj hms hns hkeys hsame, hd => by
    rw [Doc.inRange, membersInRange_iff]
    intro n hn
    have he := lookup_of_mem hns (k := n.1) (v := n.2) hn
    cases hlookup : ms.lookup n.1 with
    | none => exact absurd ((hkeys n.1).mpr (List.mem_map_of_mem hn)) (lookup_eq_none.mp hlookup)
    | some d => exact lookup_inRange ms hd hlookup (hsame n.1 d n.2 hlookup he)

theorem forall₂_inRange : ∀ ds : List Doc, ∀ {es}, List.Forall₂ Same ds es → elemsInRange ds →
    ∀ e ∈ es, e.inRange
  | [], _, .nil, _ => fun e he => absurd he List.not_mem_nil
  | d :: ds, _, .cons h hs, hds => by
    obtain ⟨hd, hds⟩ := Bool.and_eq_true_iff.mp hds
    exact List.forall_mem_cons.mpr ⟨Same.inRange d h hd, forall₂_inRange ds hs hds⟩

theorem lookup_inRange : ∀ ms : List (String × Doc), ∀ {k d e}, membersInRange ms →
    ms.lookup k = some d → Same d e → e.inRange
  | (j, w) :: ms, k, d, e, hms, hd, h => by
    obtain ⟨hw, hms⟩ := Bool.and_eq_true_iff.mp hms
    rw [List.lookup_cons] at hd
    cases hkj : k == j with
    | true =>
      rw [hkj] at hd
      cases hd
      exact Same.inRange w h hw
    | false =>
      rw [hkj] at hd
      exact lookup_inRange ms hms hd h

end

/-- The variant of a tagged enum and what is left for its fields. -/
theorem tagged_same (h : Same d e) (hd : tagged tag d = some (variant, rest)) :
    ∃ rest', tagged tag e = some (variant, rest') ∧ Same rest rest' := by
  cases h with
  | @arr ds es h =>
    unfold tagged at hd
    split at hd
    · cases ‹Doc.arr _ = Doc.obj _›
    · rename_i heq
      cases heq
      obtain ⟨hrange, hd⟩ := Option.ite_none_right_eq_some.mp hd
      cases hd
      cases h with
      | cons hvariant hrest =>
        cases hvariant
        exact ⟨_, if_pos (Same.inRange _ (.arr hrest) hrange), .arr hrest⟩
    · cases hd
  | @obj ms ns hms hns hkeys hsame =>
    have hlookup : ms.lookup tag = some (.str variant) ∧ rest = .obj (ms.filter (·.1 ≠ tag)) ∧
        rest.inRange := by
      rw [tagged] at hd
      split at hd
      · rename_i k v heq
        obtain ⟨hrange, hd⟩ := Option.ite_none_right_eq_some.mp hd
        cases hd
        have hmem : (k, Doc.str variant) ∈ ms.filter (·.1 = tag) := heq ▸ List.mem_cons_self
        obtain ⟨hin, hk⟩ := List.mem_filter.mp hmem
        have hk : k = tag := of_decide_eq_true hk
        subst hk
        exact ⟨lookup_of_mem hms hin, rfl, hrange⟩
      · cases hd
    obtain ⟨htag, rfl, hrange⟩ := hlookup
    obtain ⟨hnone, hsome⟩ := SameFields.of_obj hkeys hsame
    obtain ⟨e, he, hstr⟩ := hsome htag
    cases hstr
    have hrest : Same (.obj (ms.filter (·.1 ≠ tag))) (.obj (ns.filter (·.1 ≠ tag))) := by
      refine .obj ?_ ?_ ?_ ?_
      · exact hms.sublist (List.filter_sublist.map _)
      · exact hns.sublist (List.filter_sublist.map _)
      · intro k
        rw [← not_iff_not, ← lookup_eq_none, ← lookup_eq_none, lookup_filter_ne, lookup_filter_ne]
        split
        · exact Iff.rfl
        · rw [lookup_eq_none, lookup_eq_none, hkeys]
      · intro k d e hd he
        rw [lookup_filter_ne] at hd he
        split at hd
        · cases hd
        · rw [if_neg ‹_›] at he
          exact hsame k d e hd he
    refine ⟨.obj (ns.filter (·.1 ≠ tag)), ?_, hrest⟩
    rw [tagged, filter_eq_singleton hns he]
    exact if_pos (Same.inRange _ hrest hrange)
  | _ => cases hd

theorem Orderless.tagged {g : String → Doc → Option α} (hg : ∀ variant, Orderless (g variant))
    (tag : String) : Orderless fun d => (tagged tag d).bind fun e => g e.1 e.2 := by
  refine ⟨@fun d e a h hd => ?_⟩
  obtain ⟨⟨variant, rest⟩, hrest, ha⟩ := Option.bind_eq_some_iff.mp hd
  obtain ⟨rest', hrest', hsame⟩ := tagged_same h hrest
  exact Option.bind_eq_some_iff.mpr ⟨(variant, rest'), hrest', (hg variant).same hsame ha⟩

end Doc

/-! ## Values that repeat no name -/

namespace Json

/-- An object whose members are fields of a struct. -/
theorem uniqueKeys_obj (names : List String) (hnames : names.Nodup) {ms : List (String × Json)}
    (h : (ms.map Prod.fst).Sublist names) (hms : MembersUnique ms) : (obj ms).UniqueKeys :=
  ⟨hnames.sublist h, hms⟩

theorem membersUnique_append {ms ns : List (String × Json)} (hms : MembersUnique ms)
    (hns : MembersUnique ns) : MembersUnique (ms ++ ns) := by
  rw [membersUnique_iff] at hms hns ⊢
  intro m hm
  rcases List.mem_append.mp hm with hm | hm
  · exact hms m hm
  · exact hns m hm

theorem membersUnique_optional {f : α → Json} (h : ∀ a, (f a).UniqueKeys) (name : String)
    (o : Option α) : MembersUnique (o.toList.map fun a => (name, f a)) := by
  cases o with
  | none => trivial
  | some a => exact ⟨h a, trivial⟩

theorem depth_obj_le {ms : List (String × Json)} :
    (obj ms).depth ≤ n + 1 ↔ ∀ m ∈ ms, m.2.depth ≤ n := by
  rw [depth, toDoc, Doc.toMembers_eq_map, Doc.depth_obj_le, List.forall_mem_map]
  rfl

theorem depth_arr_le {vs : List Json} : (arr vs).depth ≤ n + 1 ↔ ∀ v ∈ vs, v.depth ≤ n := by
  rw [depth, toDoc, Doc.toDocs_eq_map, Doc.depth_arr_le, List.forall_mem_map]
  rfl

end Json

/-! ## Documents as values -/

namespace Doc

mutual

/-- A document as a value of any shape: its objects are sorted maps. -/
def value : Doc → Doc
  | .arr ds => .arr (values ds)
  | .obj ms => .obj (BTreeMap.ofList (valueMembers ms)).entries
  | d => d

def values : List Doc → List Doc
  | [] => []
  | d :: ds => value d :: values ds

def valueMembers : List (String × Doc) → List (String × Doc)
  | [] => []
  | (k, d) :: ms => (k, value d) :: valueMembers ms

end

theorem value_of_isNumber {d : Doc} (h : d.IsNumber) : d.value = d := by
  cases d with
  | num n => rfl
  | huge => rfl
  | _ => cases h

mutual

/-- What was written is read as its sorted form. -/
theorem value_toDoc : ∀ v : Json, v.toDoc.value = v.canonical.toDoc
  | .null | .bool _ | .str _ => rfl
  | .num n => value_of_isNumber (Json.isNumber_toDoc n)
  | .arr vs => by
    rw [Json.toDoc, value, values_toDocs vs, Json.canonical, Json.toDoc]
  | .obj ms => by
    rw [Json.toDoc, value, valueMembers_toMembers ms, Json.canonical, Json.toDoc,
      Json.canonicalMembers_eq_map, toMembers_eq_map]
    exact congrArg obj (BTreeMap.entries_ofList_map Json.toDoc _)

theorem values_toDocs : ∀ vs : List Json, values (Json.toDocs vs) = Json.toDocs (Json.canonicals vs)
  | [] => rfl
  | v :: vs => by
    rw [Json.toDocs, values, value_toDoc v, values_toDocs vs, Json.canonicals, Json.toDocs]

theorem valueMembers_toMembers : ∀ ms : List (String × Json),
    valueMembers (Json.toMembers ms) = (ms.map fun m => (m.1, m.2.canonical)).map
      fun m => (m.1, m.2.toDoc)
  | [] => rfl
  | (k, v) :: ms => by
    rw [Json.toMembers, valueMembers, value_toDoc v, valueMembers_toMembers ms]
    rfl

end

end Doc

/-- What is read back from a value is read back from its sorted form. -/
theorem Doc.Orderless.canonical {f : Doc → Option α} (hf : Orderless f) {v : Json}
    (hv : v.UniqueKeys) (h : f v.toDoc = some a) : f v.canonical.toDoc = some a :=
  hf.same (same_canonical v hv) h

end Ravn.Theory
