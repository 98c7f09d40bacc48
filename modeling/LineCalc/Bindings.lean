import LineCalc.Fault
import Std.Data.ExtTreeMap

/-!
# Bindings: the variables and their values

A binding is made by an assignment, replaced by the next one to the same name and
never removed. Any text can be a name here; which names can be written in a line is
a rule about lines.

Two bindings are equal as soon as they give every name the same value (`ext`), so
"the variables are as they were" is an equation.
-/

namespace LineCalc

/-- What each variable stands for. -/
structure Bindings where
  values : Std.ExtTreeMap String Int64

namespace Bindings

/-- No variable has a value. -/
def empty : Bindings := ⟨∅⟩

instance : EmptyCollection Bindings := ⟨empty⟩

instance : Inhabited Bindings := ⟨empty⟩

/-- Give `name` a value, in place of the one it had if it had one. -/
def define (b : Bindings) (name : String) (value : Int64) : Bindings :=
  ⟨b.values.insert name value⟩

/-- The value of `name`, if it has one. -/
def get? (b : Bindings) (name : String) : Option Int64 := b.values[name]?

/-- The value of `name`, which has to have one. -/
def get (b : Bindings) (name : String) : Except Fault Int64 :=
  match b.get? name with
  | some value => .ok value
  | none => .error .unknownVariable

/-- Whether `name` has a value. -/
def contains (b : Bindings) (name : String) : Bool := b.values.contains name

/-- How many variables have a value. -/
def size (b : Bindings) : Nat := b.values.size

/-- No variable has a value. -/
def isEmpty (b : Bindings) : Bool := b.values.isEmpty

/-- The variables with their values, each name once. -/
def toList (b : Bindings) : List (String × Int64) := b.values.toList

/-- The bindings that the pairs make one after the other, so that of two for the same name the
later counts. -/
def ofList (pairs : List (String × Int64)) : Bindings :=
  pairs.foldl (fun b (name, value) => b.define name value) ∅

/-! ## Seen through `get?` -/

theorem ext {b b' : Bindings} (h : ∀ name, b.get? name = b'.get? name) : b = b' :=
  congrArg Bindings.mk (Std.ExtTreeMap.ext_getElem? h)

@[simp] theorem get?_empty (name : String) : (∅ : Bindings).get? name = none :=
  Std.ExtTreeMap.getElem?_empty

@[simp] theorem get?_define (b : Bindings) (name other : String) (value : Int64) :
    (b.define name value).get? other = if name = other then some value else b.get? other := by
  simp [define, get?, Std.ExtTreeMap.getElem?_insert]

@[simp] theorem contains_eq_isSome (b : Bindings) (name : String) :
    b.contains name = (b.get? name).isSome :=
  Std.ExtTreeMap.contains_eq_isSome_getElem?

@[simp] theorem size_empty : (∅ : Bindings).size = 0 := Std.ExtTreeMap.size_empty

theorem size_define (b : Bindings) (name : String) (value : Int64) :
    (b.define name value).size = if b.contains name then b.size else b.size + 1 :=
  Std.ExtTreeMap.size_insert

theorem isEmpty_eq_size (b : Bindings) : b.isEmpty = (b.size == 0) :=
  Std.ExtTreeMap.isEmpty_eq_size_beq_zero

/-- `toList` lists what `get?` finds. -/
theorem mem_toList_iff {b : Bindings} {name : String} {value : Int64} :
    (name, value) ∈ b.toList ↔ b.get? name = some value :=
  Std.ExtTreeMap.mem_toList_iff_getElem?_eq_some

/-- The names that have a value can be listed, and `size` counts them. -/
theorem exists_names (b : Bindings) :
    ∃ names : List String, names.Nodup ∧ (∀ name, name ∈ names ↔ b.contains name = true) ∧
      names.length = b.size :=
  ⟨b.values.keys, Std.ExtTreeMap.nodup_keys, fun _ => Std.ExtTreeMap.mem_keys,
    Std.ExtTreeMap.length_keys⟩

/-- A write of the value that is there changes nothing. -/
theorem define_of_get? {b : Bindings} {name : String} {value : Int64}
    (h : b.get? name = some value) : b.define name value = b := by
  apply ext
  intro other
  rw [get?_define]
  split
  · rename_i heq; rw [← heq, h]
  · rfl

end Bindings

end LineCalc
