import TypedModel.Entries
import TypedModel.Time.Instant
import TypedModel.Double.Basic

/-!
# Values

The dynamic values that predict functions take and return: scalars, lists, maps
with sorted names, instances of records, and frames, which are batches of rows
under column names. Two comparisons stand beside each other: equality of
structures, which tells all values apart, and `sameAs`, which compares doubles
numerically.
-/

namespace TypedModel

mutual

/-- A value. -/
inductive Value where
  /-- No value. -/
  | null
  /-- A truth value. -/
  | bool (b : Bool)
  /-- A 64-bit integer. -/
  | long (n : Int64)
  /-- A double-precision number. -/
  | double (x : Double)
  /-- A text. -/
  | str (s : String)
  /-- Octets. -/
  | bytes (octets : List UInt8)
  /-- An instant of UTC. -/
  | datetime (t : Instant)
  /-- A list. -/
  | list (items : List Value)
  /-- A map; its names are sorted. -/
  | map (entries : List (String × Value))
  /-- An instance of a record. -/
  | record (record : Record)
  /-- A batch of rows. -/
  | frame (frame : Frame)

/-- An instance of a record: the record's name, and field values in the order
in which the record declares them. -/
structure Record where
  /-- Name of the record. -/
  name : String
  /-- Field values; names may repeat. -/
  fields : List (String × Value)

/-- A batch of rows under column names. -/
structure Frame where
  /-- Column names; names may repeat. -/
  columns : List String
  /-- Rows, each with its cells from left to right. -/
  rows : List (List Value)

end

instance : Inhabited Value := ⟨.null⟩

namespace Value

/-- Kind of a value as messages name it; an instance of a record has the name of
its record. -/
def kindName : Value → String
  | .null => "NoneType"
  | .bool _ => "bool"
  | .long _ => "int"
  | .double _ => "float"
  | .str _ => "str"
  | .bytes _ => "bytes"
  | .datetime _ => "datetime"
  | .list _ => "list"
  | .map _ => "dict"
  | .record r => r.name
  | .frame _ => "DataFrame"

/-- Whether there is no value. -/
def isNull : Value → Bool
  | .null => true
  | _ => false

/-- The text of a text. -/
def str? : Value → Option String
  | .str s => some s
  | _ => none

/-- The integer of an integer. -/
def long? : Value → Option Int64
  | .long n => some n
  | _ => none

/-- The items of a list. -/
def items? : Value → Option (List Value)
  | .list items => some items
  | _ => none

/-- The entries of a map. -/
def entries? : Value → Option (Entries Value)
  | .map entries => some entries
  | _ => none

/-- The record instance of a record instance. -/
def record? : Value → Option Record
  | .record r => some r
  | _ => none

/-- A map of named values; of values with one name the last stays. -/
def ofPairs (pairs : List (String × Value)) : Value := .map (Entries.ofList pairs)

mutual

/-- Comparison of values that compares doubles numerically. -/
def sameAs : Value → Value → Bool
  | .null, .null => true
  | .bool a, .bool b => a == b
  | .long a, .long b => a == b
  | .double a, .double b => a.ieeeEq b
  | .str a, .str b => a == b
  | .bytes a, .bytes b => a == b
  | .datetime a, .datetime b => decide (a = b)
  | .list a, .list b => itemsSameAs a b
  | .map a, .map b => entriesSameAs a b
  | .record ⟨m, a⟩, .record ⟨n, b⟩ => m == n && entriesSameAs a b
  | .frame ⟨m, a⟩, .frame ⟨n, b⟩ => m == n && rowsSameAs a b
  | _, _ => false
termination_by structural v => v

/-- Comparison of lists, item by item. -/
def itemsSameAs : List Value → List Value → Bool
  | [], [] => true
  | a :: as, b :: bs => sameAs a b && itemsSameAs as bs
  | _, _ => false
termination_by structural items => items

/-- Comparison of named values in order. -/
def entriesSameAs : List (String × Value) → List (String × Value) → Bool
  | [], [] => true
  | (m, a) :: as, (n, b) :: bs => m == n && sameAs a b && entriesSameAs as bs
  | _, _ => false
termination_by structural entries => entries

/-- Comparison of rows in order. -/
def rowsSameAs : List (List Value) → List (List Value) → Bool
  | [], [] => true
  | a :: as, b :: bs => itemsSameAs a b && rowsSameAs as bs
  | _, _ => false
termination_by structural rows => rows

end

mutual

/-- The value without record instances: each becomes the map of its fields, of
fields with one name the last. Frames stay as they are. -/
def normalized : Value → Value
  | .list items => .list (normalizedItems items)
  | .map entries => .map (normalizedEntries entries)
  | .record ⟨_, fields⟩ => ofPairs (normalizedEntries fields)
  | v => v
termination_by structural v => v

/-- Items without record instances. -/
def normalizedItems : List Value → List Value
  | [] => []
  | item :: rest => normalized item :: normalizedItems rest
termination_by structural items => items

/-- Named values without record instances. -/
def normalizedEntries : List (String × Value) → List (String × Value)
  | [] => []
  | (name, value) :: rest => (name, normalized value) :: normalizedEntries rest
termination_by structural entries => entries

end

end Value

namespace Record

/-- A record instance without fields. -/
def empty (name : String) : Record := ⟨name, []⟩

/-- One more field behind the others. -/
def push (r : Record) (name : String) (value : Value) : Record :=
  { r with fields := r.fields ++ [(name, value)] }

/-- Value of the first field of a name. -/
def get? (r : Record) (name : String) : Option Value := r.fields.lookup name

/-- The map of the fields, without record instances in them. -/
def toMap (r : Record) : Value := (Value.record r).normalized

end Record

end TypedModel
