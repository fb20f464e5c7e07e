import Kusto.Number.Numeral

/-!
# JSON values

Objects are ordered member lists. A document may repeat a key; `settled` keeps the first place
and the last value of each key, so a settled value has no repeated key.
-/

namespace Kusto

open Number (Binary64)

/-- A JSON number: a 64-bit integer, signed or not, or a finite binary64 number. -/
inductive Json.Number where
  | integer (value : Int) (fits : Number.isInteger64 value = true)
  | real (value : Binary64.Finite)
  deriving DecidableEq

/-- A JSON value; the members of an object are in document order. -/
inductive Json where
  | null
  | bool (value : Bool)
  | num (value : Json.Number)
  | str (text : String)
  | arr (items : List Json)
  | obj (members : List (String × Json))

namespace Json

instance : Inhabited Json := ⟨null⟩

/-- A binary64 number, `null` if it is not finite. -/
def ofBinary64 : Binary64 → Json
  | .finite x => num (.real x)
  | _ => null

/-- An integer; beyond 64 bits it is rounded to a real. -/
def ofInt (n : Int) : Json :=
  if h : Number.isInteger64 n then num (.integer n h) else ofBinary64 (Binary64.ofInt n)

/-- The integer, if it has at most 64 bits with its sign. -/
def Number.int64? : Number → Option Int
  | integer n _ => if Number.isInt64 n then some n else none
  | real _ => none

/-- The number rounded to binary64. -/
def Number.toBinary64 : Number → Binary64
  | integer n _ => Binary64.ofInt n
  | real x => .finite x

def bool? : Json → Option Bool
  | bool b => some b
  | _ => none

def text? : Json → Option String
  | str s => some s
  | _ => none

def items? : Json → Option (List Json)
  | arr xs => some xs
  | _ => none

def members? : Json → Option (List (String × Json))
  | obj ms => some ms
  | _ => none

/-- The value of the first member named `key`; nothing for a value that is no object. -/
def member? (key : String) : Json → Option Json
  | obj ms => ms.lookup key
  | _ => none

/-- The value at the end of a path of keys. -/
def path? (keys : List String) (j : Json) : Option Json := keys.foldlM (fun v k => v.member? k) j

/-- Set `key` to `value`: in the place of the first member of that name, else at the end. -/
def put (key : String) (value : Json) : List (String × Json) → List (String × Json)
  | [] => [(key, value)]
  | (k, v) :: ms => if k = key then (k, value) :: ms else (k, v) :: put key value ms

@[simp] theorem put_nil (key : String) (value : Json) : put key value [] = [(key, value)] := rfl

theorem lookup_put_self (key : String) (value : Json) (ms : List (String × Json)) :
    (put key value ms).lookup key = some value := by
  induction ms with
  | nil => simp
  | cons m ms ih =>
    obtain ⟨k, v⟩ := m
    by_cases h : k = key
    · simp [put, h]
    · have h' : (key == k) = false := by simpa using fun e => h e.symm
      simp [put, h, List.lookup_cons, h', ih]

theorem lookup_put_of_ne {key other : String} (h : other ≠ key) (value : Json)
    (ms : List (String × Json)) : (put key value ms).lookup other = ms.lookup other := by
  have hne : (other == key) = false := by simpa using h
  induction ms with
  | nil => simp [List.lookup_cons, hne]
  | cons m ms ih =>
    obtain ⟨k, v⟩ := m
    by_cases hk : k = key
    · simp [put, hk, List.lookup_cons, hne]
    · simp [put, hk, List.lookup_cons, ih]

/-- Each key once: its first place and its last value. -/
def settleMembers (ms : List (String × Json)) : List (String × Json) :=
  ms.foldl (fun acc m => put m.1 m.2 acc) []

mutual

/-- The value with `settleMembers` applied to all its objects. -/
def settled : Json → Json
  | arr xs => arr (settledItems xs)
  | obj ms => obj (settleMembers (settledMembers ms))
  | null => null
  | bool b => bool b
  | num n => num n
  | str s => str s
termination_by structural v => v

def settledItems : List Json → List Json
  | [] => []
  | x :: xs => settled x :: settledItems xs
termination_by structural xs => xs

def settledMembers : List (String × Json) → List (String × Json)
  | [] => []
  | (k, v) :: ms => (k, settled v) :: settledMembers ms
termination_by structural ms => ms

end

mutual

/-- Equality of values is decidable. -/
def decEq : (a b : Json) → Decidable (a = b)
  | null, null => isTrue rfl
  | bool a, bool b => decidable_of_iff (a = b) (by simp)
  | num a, num b => decidable_of_iff (a = b) (by simp)
  | str a, str b => decidable_of_iff (a = b) (by simp)
  | arr a, arr b =>
    match decEqItems a b with
    | isTrue h => isTrue (by rw [h])
    | isFalse h => isFalse (by simpa using h)
  | obj a, obj b =>
    match decEqMembers a b with
    | isTrue h => isTrue (by rw [h])
    | isFalse h => isFalse (by simpa using h)
  | null, bool _ | null, num _ | null, str _ | null, arr _ | null, obj _
  | bool _, null | bool _, num _ | bool _, str _ | bool _, arr _ | bool _, obj _
  | num _, null | num _, bool _ | num _, str _ | num _, arr _ | num _, obj _
  | str _, null | str _, bool _ | str _, num _ | str _, arr _ | str _, obj _
  | arr _, null | arr _, bool _ | arr _, num _ | arr _, str _ | arr _, obj _
  | obj _, null | obj _, bool _ | obj _, num _ | obj _, str _ | obj _, arr _ =>
    isFalse (by simp)
termination_by structural a => a

def decEqItems : (a b : List Json) → Decidable (a = b)
  | [], [] => isTrue rfl
  | [], _ :: _ | _ :: _, [] => isFalse (by simp)
  | x :: xs, y :: ys =>
    match decEq x y, decEqItems xs ys with
    | isTrue h, isTrue h' => isTrue (by rw [h, h'])
    | isFalse h, _ => isFalse (by simp [h])
    | _, isFalse h => isFalse (by simp [h])
termination_by structural a => a

def decEqMembers : (a b : List (String × Json)) → Decidable (a = b)
  | [], [] => isTrue rfl
  | [], _ :: _ | _ :: _, [] => isFalse (by simp)
  | (k, x) :: xs, (l, y) :: ys =>
    match decEq x y, decEqMembers xs ys with
    | isTrue h, isTrue h' => decidable_of_iff (k = l) (by simp [h, h'])
    | isFalse h, _ => isFalse (by simp [h])
    | _, isFalse h => isFalse (by simp [h])
termination_by structural a => a

end

instance : DecidableEq Json := decEq

end Json

end Kusto
