import Seedbed.Keyed.Arranged
/-! The identifiers that the records of a session got, as text under the records' labels. A label
written again takes the later identifier. -/

namespace Seedbed

structure Registry where
  ids : Keyed String := ∅
  deriving Inhabited

namespace Registry

def empty : Registry := {}

instance : EmptyCollection Registry := ⟨empty⟩

def insert (r : Registry) (label id : String) : Registry := ⟨r.ids.insert label id⟩

def lookup (r : Registry) (label : String) : Option String := r.ids.get? label

def has (r : Registry) (label : String) : Bool := r.ids.contains label

def size (r : Registry) : Nat := r.ids.size

def entries (r : Registry) : List (String × String) := r.ids.entries

def ofEntries (entries : List (String × String)) : Registry := ⟨.ofList entries⟩

def toFields (r : Registry) : List (String × String) := arrange r.entries

theorem lookup_insert (r : Registry) (label l id : String) :
    (r.insert label id).lookup l = if l = label then some id else r.lookup l :=
  Keyed.get?_insert _ _ _ _

end Registry

end Seedbed
