import Ravn.Theory.Json
import Ravn.Theory.Text

/-! Dotted paths into a JSON value. A step goes to the member of an object under a name, and of several
to the last, which is the one that a map keeps when it is filled in writing order. -/

namespace Ravn.Theory

/-! ## The last entry under a name -/

def lastUnder (name : String) (ms : List (String × α)) : Option α := ms.reverse.lookup name

@[simp] theorem lastUnder_nil : lastUnder name ([] : List (String × α)) = none := rfl

@[simp] theorem lastUnder_append (ms ns : List (String × α)) :
    lastUnder name (ms ++ ns) = (lastUnder name ns).or (lastUnder name ms) := by
  rw [lastUnder, List.reverse_append, List.lookup_append]
  rfl

@[simp] theorem lastUnder_cons (key : String) (a : α) (ms : List (String × α)) :
    lastUnder name ((key, a) :: ms) =
      (lastUnder name ms).or (if name = key then some a else none) := by
  rw [lastUnder, List.reverse_cons, List.lookup_append, List.lookup_cons, List.lookup_nil]
  by_cases hkey : name = key
  · simp [lastUnder, hkey]
  · simp [lastUnder, hkey, beq_eq_false_iff_ne.mpr hkey]

@[simp] theorem lastUnder_optional (key : String) (o : Option β) (f : β → α) :
    lastUnder name (o.toList.map fun b => (key, f b)) = if name = key then o.map f else none := by
  cases o <;> simp

@[simp] theorem lastUnder_unless (c : Prop) [Decidable c] (ms : List (String × α)) :
    lastUnder name (if c then [] else ms) = if c then none else lastUnder name ms := by
  split <;> rfl

theorem lastUnder_eq_none {ms : List (String × α)} (h : ∀ m ∈ ms, m.1 ≠ name) :
    lastUnder name ms = none := by
  rw [lastUnder, List.lookup_eq_none_iff]
  intro m hm
  simpa using (h m (List.mem_reverse.mp hm)).symm

namespace Json

/-! ## Walking -/

/-- The member of an object under a name. -/
def member (name : String) : Json → Option Json
  | obj ms => lastUnder name ms
  | _ => none

/-- The value at the end of a path. -/
def walk : List String → Json → Option Json
  | [], v => some v
  | name :: names, v => (v.member name).bind (walk names)

def asText : Json → Option String
  | str s => some s
  | _ => none

@[simp] theorem asText_str (s : String) : (str s).asText = some s := rfl

@[simp] theorem asText_num (n : Int) : (num n).asText = none := rfl

@[simp] theorem asText_bool (b : Bool) : (bool b).asText = none := rfl

@[simp] theorem asText_arr (vs : List Json) : (arr vs).asText = none := rfl

@[simp] theorem bind_map_str (o : Option String) : (o.map str).bind asText = o := by
  cases o <;> rfl

/-- The string at the end of a path. -/
def textAt (names : List String) (v : Json) : Option String := (v.walk names).bind asText

end Json

/-- The names that a dotted path goes through. -/
def pathNames (path : String) : List String := (split '.' path.toList).map String.ofList

/-- A name by itself is a path. -/
theorem pathNames_name {name : String} (h : '.' ∉ name.toList) : pathNames name = [name] := by
  rw [pathNames, split_of_notMem h, List.map_singleton, String.ofList_toList]

theorem pathNames_dot {name : String} (h : '.' ∉ name.toList) (path : String) :
    pathNames (name ++ "." ++ path) = name :: pathNames path := by
  have hdot : ".".toList = ['.'] := rfl
  rw [pathNames, String.toList_append, String.toList_append, hdot, List.append_assoc,
    List.singleton_append, split_append_cons h, List.map_cons, String.ofList_toList]
  rfl

end Ravn.Theory
