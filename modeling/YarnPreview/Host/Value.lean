import YarnPreview.Value.Basic

/-!
# Host values

The viewer runs inside a scripting host whose values are richer than records:
there is an undefined value, every number is a double that may be NaN or
infinite, and there are things that no record can hold.  This module is the
passage between the two.

## Main definitions

* `HostValue` — a value of the host
* `HostValue.toRecord` — what a host value means as a record
* `HostValue.ofRecord` — a record handed to the host

## Design notes

**Undefined is nothing in a field and null elsewhere.**  An object field that
holds undefined is dropped, so that it reads as missing; as an item of an array,
or on its own, undefined is null.

**Numbers outside the range keep their names**, as texts that numeric coercion
reads back.

**Field order is not observable** in the host, so `HostValue.object` lists its
fields in any order; the fields of a record ascend.
-/

namespace YarnPreview

/-- Things of the host that no record can hold. -/
inductive ForeignKind where
  | symbol
  | function
  | bigInteger
  deriving DecidableEq, Repr

/-- **A value of the host.** -/
inductive HostValue where
  | undefined
  | null
  | bool (b : Bool)
  | number (x : Float)
  | string (s : String)
  | array (items : List HostValue)
  | object (fields : List (String × HostValue))
  | foreign (kind : ForeignKind)
  deriving Inhabited

namespace HostValue

/-- Is this the undefined value? -/
def isUndefined : HostValue → Bool
  | undefined => true
  | _ => false

/-- The finite number that a host value is; nothing is coerced. -/
def finiteNumber? : HostValue → Option Float
  | number x => if x.isFinite then some x else none
  | _ => none

mutual

/-- **The record that a host value means.** -/
def toRecord : HostValue → Value
  | undefined => .null
  | null => .null
  | bool b => .bool b
  | number x => .ofFloatOrName x
  | string s => .string s
  | array items => .array (toRecords items)
  | object fields => .object (toRecordFields fields)
  | foreign _ => .null

/-- The records of the items of an array, one for each. -/
def toRecords : List HostValue → List Value
  | [] => []
  | item :: rest => item.toRecord :: toRecords rest

/-- The records of the fields of an object, undefined ones dropped. -/
def toRecordFields : List (String × HostValue) → Fields Value
  | [] => []
  | (name, value) :: rest =>
      if value.isUndefined then toRecordFields rest
      else Fields.insert name value.toRecord (toRecordFields rest)

end

mutual

/-- **A record handed to the host**: its numbers become doubles. -/
def ofRecord : Value → HostValue
  | .null => null
  | .bool b => bool b
  | .number n => number n.toFloat
  | .string s => string s
  | .array items => array (ofRecords items)
  | .object fields => object (ofRecordFields fields)

/-- The items of an array handed to the host. -/
def ofRecords : List Value → List HostValue
  | [] => []
  | item :: rest => ofRecord item :: ofRecords rest

/-- The fields of an object handed to the host. -/
def ofRecordFields : List (String × Value) → List (String × HostValue)
  | [] => []
  | (name, value) :: rest => (name, ofRecord value) :: ofRecordFields rest

end

end HostValue

end YarnPreview
