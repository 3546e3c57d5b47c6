import Archetype.Table
import Archetype.Value

namespace Archetype

structure Key where
  spelled : Value
deriving Inhabited

namespace Key

instance : BEq Key := ⟨fun left right => decide (left.spelled.key = right.spelled.key)⟩

theorem beq_iff {left right : Key} :
    (left == right) = true ↔ left.spelled.key = right.spelled.key :=
  decide_eq_true_iff

instance : EquivBEq Key where
  rfl := beq_iff.2 rfl
  symm h := beq_iff.2 (beq_iff.1 h).symm
  trans h h' := beq_iff.2 ((beq_iff.1 h).trans (beq_iff.1 h'))

def text (characters : String) : Key :=
  ⟨.text characters⟩

def toText (key : Key) : String :=
  key.spelled.toText

end Key

abbrev Data := Table Key Value

namespace Data

def ofEntries (entries : List (Value × Value)) : Data :=
  Table.ofList (entries.map fun entry => (⟨entry.1⟩, entry.2))

def toEntries (data : Data) : List (Value × Value) :=
  data.entries.map fun entry => (entry.1.spelled, entry.2)

def find? (data : Data) (name : String) : Option Value :=
  data.get? (.text name)

def set (data : Data) (name : String) (value : Value) : Data :=
  data.insert (.text name) value

end Data

def Value.mapOf (entries : List (Value × Value)) : Value :=
  .map (Data.ofEntries entries).toEntries

end Archetype
