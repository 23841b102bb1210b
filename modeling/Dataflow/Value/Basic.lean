import Dataflow.Moment

/-!
# Values

Configurations, payloads and rows hold values of any type.  `Value` lists the types that occur:
the scalars, lists and rows that make up data, functions, and the further kinds of value that a
caller may put into a configuration.  A row is a list of named values in ascending order of names.
-/

namespace Dataflow

inductive IntType where
  | i8 | i16 | i32 | i64
  | word | u8 | u16 | u32 | u64
deriving DecidableEq

namespace IntType

def bits : IntType → Nat
  | i8 | u8 => 8
  | i16 | u16 => 16
  | i32 | u32 => 32
  | i64 | u64 | word => 64

def isSigned : IntType → Bool
  | i8 | i16 | i32 | i64 => true
  | _ => false

def name : IntType → Text
  | i8 => "int8"
  | i16 => "int16"
  | i32 => "int32"
  | i64 => "int64"
  | word => "uint"
  | u8 => "uint8"
  | u16 => "uint16"
  | u32 => "uint32"
  | u64 => "uint64"

def all : List IntType := [i8, i16, i32, i64, word, u8, u16, u32, u64]

def wrap (t : IntType) (n : Int) : Int :=
  let size : Nat := Nat.pow 2 t.bits
  if t.isSigned then Int.bmod n size else n % size

end IntType

inductive StandardFunc where
  | identity
  | positiveClose
  | upDay
  | typicalPrice
deriving DecidableEq

/-- What a function does: a standard function, or one supplied from outside and known by a
number. -/
inductive Code where
  | standard (f : StandardFunc)
  | supplied (n : Nat)
deriving DecidableEq

inductive FoldCode where
  | sumClose
  | supplied (n : Nat)
deriving DecidableEq

/-- A transform or predicate with its display name and its symbolic form.  Without code it is the
identity, or the predicate that always holds. -/
structure Func where
  name : Text := ""
  expr : Text := ""
  code : Option Code := none
deriving DecidableEq

structure FoldFunc where
  name : Text := ""
  expr : Text := ""
  code : Option FoldCode := none
deriving DecidableEq

def lambdaName (name : Text) : Text := if name.isEmpty then "<lambda>" else name

def Func.text (f : Func) : Text := lambdaName f.name

def FoldFunc.text (f : FoldFunc) : Text := lambdaName f.name

inductive Signature where
  | checked
  | total
  | predicate
deriving DecidableEq

/-- The name of the code of a function, and its place in memory. -/
structure Symbol where
  name : Text := ""
  place : Nat := 0xc000000000

/-- How a type writes its values: as a text, or as the message of an error. -/
inductive Writing where
  | text
  | message
deriving DecidableEq

inductive Value where
  | null
  | bool (b : Bool)
  | text (t : Text)
  | float (x : Float)
  | int (n : Int64)
  | sized (t : IntType) (n : Int)
  | single (x : Float32)
  /-- A number kept as the text it was read from. -/
  | numeral (t : Text)
  | complex (re im : Float)
  | list (xs : List Value)
  /-- A list that was never made; it has no elements. -/
  | noList
  | row (fields : List (Text × Value))
  /-- A row that was never made; it has no fields. -/
  | noRow
  /-- A sequence whose elements all have one type. -/
  | sequence (type : Text) (xs : List Value)
  /-- A map with keys of a type of texts that is not a row, in ascending order of keys.  Their type writes
  them as `written` says. -/
  | lexicon (type : Text) (written : Text → Text) (fields : List (Text × Value))
  /-- A map with keys of any other type, in ascending order of keys. -/
  | dictionary (type : Text) (entries : List (Value × Value))
  | record (type : Text) (fields : List (Text × Value))
  /-- A reference to a variable of the type. -/
  | reference (type : Text) (place : Nat) (target : Value)
  /-- A reference to nothing, of a type that writes what is referred to or of one that does not. -/
  | noReference (type : Text) (writing : Option Writing)
  /-- A value of a type that writes itself as text. -/
  | named (type : Text) (t : Text)
  | stamp (s : Stamp)
  | error (type : Text) (message : Text)
  | func (f : Func)
  | closure (s : Signature) (c : Code) (symbol : Symbol)
  | fold (f : FoldFunc)
  | foldClosure (c : FoldCode) (symbol : Symbol)
  | noFunc (type : Text)
deriving Inhabited

abbrev Row := List (Text × Value)

namespace Fields

variable {α : Type}

def get? (fields : List (Text × α)) (key : Text) : Option α :=
  (fields.find? (·.1 = key)).map Prod.snd

def has (fields : List (Text × α)) (key : Text) : Bool := fields.any (·.1 = key)

def set (key : Text) (v : α) : List (Text × α) → List (Text × α)
  | [] => [(key, v)]
  | (k, w) :: rest =>
    if k = key then (key, v) :: rest
    else if key.lt k then (key, v) :: (k, w) :: rest
    else (k, w) :: set key v rest

/-- The fields in ascending order of names; of equal names the last one stays. -/
def ofList (fields : List (Text × α)) : List (Text × α) :=
  fields.foldl (fun acc (k, v) => set k v acc) []

/-- The first argument with the fields of the second set in it. -/
def update (fields more : List (Text × α)) : List (Text × α) :=
  more.foldl (fun acc (k, v) => set k v acc) fields

def keys (fields : List (Text × α)) : List Text := Text.sort (fields.map Prod.fst)

def sorted (fields : List (Text × α)) : List (Text × α) :=
  fields.mergeSort fun a b => a.1.le b.1

theorem has_eq_isSome (fields : List (Text × α)) (key : Text) :
    has fields key = (get? fields key).isSome := by
  unfold has get?
  induction fields with
  | nil => rfl
  | cons e rest ih => by_cases h : e.1 = key <;> simp [h, ih]

theorem get?_cons (fields : List (Text × α)) (key k : Text) (v : α) :
    get? ((key, v) :: fields) k = if key = k then some v else get? fields k := by
  by_cases h : key = k <;> simp [get?, h]

theorem mem_of_get? {fields : List (Text × α)} {key : Text} {v : α} (h : get? fields key = some v) :
    (key, v) ∈ fields := by
  obtain ⟨⟨k, w⟩, hfind, rfl⟩ := Option.map_eq_some_iff.mp h
  have hkey : k = key := by simpa using List.find?_some hfind
  exact hkey ▸ List.mem_of_find?_eq_some hfind

theorem get?_set (fields : List (Text × α)) (key k : Text) (v : α) :
    get? (set key v fields) k = if key = k then some v else get? fields k := by
  induction fields with
  | nil => rw [set, get?_cons]
  | cons e rest ih =>
    obtain ⟨k', w⟩ := e
    unfold set
    by_cases hk : k' = key
    · subst hk
      rw [if_pos rfl, get?_cons, get?_cons]
      split <;> rfl
    · rw [if_neg hk]
      by_cases hlt : key.lt k' = true
      · rw [if_pos hlt, get?_cons]
      · rw [if_neg hlt, get?_cons, get?_cons, ih]
        by_cases hk' : k' = k
        · subst hk'
          rw [if_pos rfl, if_pos rfl, if_neg (Ne.symm hk)]
        · rw [if_neg hk', if_neg hk']

end Fields

namespace Value

def ofOption : Option Value → Value
  | some v => v
  | none => null

def rowType : Text := "map[string]interface {}"

def funcType : Text := "algebra.Func"

def typeName : Value → Text
  | null => "<nil>"
  | bool _ => "bool"
  | text _ => "string"
  | float _ => "float64"
  | int _ => "int"
  | sized t _ => t.name
  | single _ => "float32"
  | numeral _ => "json.Number"
  | complex _ _ => "complex128"
  | list _ | noList => "[]interface {}"
  | stamp _ => "time.Time"
  | row _ | noRow => rowType
  | sequence t _ | lexicon t _ _ | dictionary t _ | record t _ | named t _ | error t _ | noFunc t => t
  | reference t _ _ | noReference t _ => "*" ++ t
  | func _ => funcType
  | closure .checked _ _ => "func(interface {}) (interface {}, error)"
  | closure .total _ _ => "func(interface {}) interface {}"
  | closure .predicate _ _ => "func(interface {}) bool"
  | fold _ => "algebra.ReduceFunc"
  | foldClosure _ _ => "func(interface {}, interface {}) (interface {}, error)"

def asRow? : Value → Option Row
  | row fields => some fields
  | noRow => some []
  | _ => none

def rows (rs : List Value) : Value := sequence ("[]" ++ rowType) rs

def texts (ts : List Text) : Value := sequence "[]string" (ts.map text)

end Value

end Dataflow
