import FlashforgeObico.Foundations.PythonText

/-!
# Python values decoded from JSON

`Json` is the type of the values that `json.loads` returns: integers have any size, a float may be
an infinity or a NaN, and a value of any type may stand anywhere. A `Dict` is the list of the items
of a `dict` in insertion order, and `Dict.get` is `dict.get` with the default `None`.
-/

namespace Py

/-- The exceptions of the language that the models raise. -/
inductive Error
  | typeError
  | valueError
  | overflowError
  | zeroDivisionError
  deriving DecidableEq, Repr

/-- A decoded JSON value. -/
inductive Json
  | null
  | bool (b : Bool)
  | int (n : ℤ)
  | float (x : Double)
  | str (s : String)
  | arr (items : List Json)
  | obj (fields : List (String × Json))

/-- The items of a `dict`, in insertion order. -/
abbrev Dict := List (String × Json)

namespace Dict

/-- `d.get(k)` when `k` is a key of `d`. -/
def get? (d : Dict) (k : String) : Option Json := d.lookup k

/-- `d.get(k)`, which is `None` when `k` is not a key. -/
def get (d : Dict) (k : String) : Json := (d.get? k).getD .null

/-- `d[k] = v`: the value of an existing key is replaced in place. -/
def set (d : Dict) (k : String) (v : Json) : Dict :=
  match d with
  | [] => [(k, v)]
  | (k', v') :: d => if k' = k then (k, v) :: d else (k', v') :: Dict.set d k v

theorem get?_set_of_ne {k k' : String} (h : k' ≠ k) (d : Dict) (v : Json) :
    (d.set k v).get? k' = d.get? k' := by
  induction d with
  | nil => simp [set, get?, h]
  | cons e d ih =>
    obtain ⟨k₀, v₀⟩ := e
    unfold set
    split_ifs with he
    · subst he
      simp [get?, List.lookup_cons, beq_false_of_ne h]
    · rw [get?, get?, List.lookup_cons, List.lookup_cons]
      split
      · rfl
      · exact ih

theorem get_set_self (d : Dict) (k : String) (v : Json) : (d.set k v).get k = v := by
  induction d with
  | nil => simp [set, get, get?]
  | cons e d ih =>
    obtain ⟨k', v'⟩ := e
    unfold set
    split_ifs with h
    · simp [get, get?]
    · rw [get, get?, List.lookup_cons, beq_false_of_ne (Ne.symm h)]
      exact ih

theorem get_set_of_ne {k k' : String} (h : k' ≠ k) (d : Dict) (v : Json) :
    (d.set k v).get k' = d.get k' := by
  rw [get, get?_set_of_ne h, get]

end Dict

/-- `bool(v)`. -/
def Json.truthy : Json → Bool
  | .null => false
  | .bool b => b
  | .int n => n ≠ 0
  | .float x => x ≠ 0
  | .str s => s ≠ ""
  | .arr items => !items.isEmpty
  | .obj fields => !fields.isEmpty

/-- `v or w`. -/
def Json.orElse (v w : Json) : Json := if v.truthy then v else w

/-- The items that `for item in v` runs over. -/
def Json.iterate : Json → Except Error (List Json)
  | .arr items => .ok items
  | .obj fields => .ok (fields.map fun f => .str f.1)
  | .str s => .ok (s.toList.map fun c => .str (String.ofList [c]))
  | _ => .error .typeError

/-- The items of a list, and none of anything else. -/
def Json.items : Json → List Json
  | .arr items => items
  | _ => []

/-- The items of an object, and none of anything else. -/
def Json.fields : Json → Dict
  | .obj fields => fields
  | _ => []

/-- `int(x)` of a float. -/
def intOfFloat : Double → Except Error ℤ
  | .finite q _ => .ok (if 0 ≤ q then ⌊q⌋ else ⌈q⌉)
  | .inf _ => .error .overflowError
  | .nan => .error .valueError

/-- `round(x)` of a float. -/
def roundFloat : Double → Except Error ℤ
  | .finite q _ => .ok (roundEven q)
  | .inf _ => .error .overflowError
  | .nan => .error .valueError

/-- `float(n)` of an integer. -/
def floatOfInt (n : ℤ) : Except Error Double :=
  match Double.ofInt? n with
  | some x => .ok x
  | none => .error .overflowError

/-- `x / y` of floats. -/
def divFloat (x y : Double) : Except Error Double :=
  if y = 0 then .error .zeroDivisionError else .ok (x / y)

end Py
