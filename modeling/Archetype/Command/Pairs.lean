import Archetype.Failure
import Archetype.Table
import Archetype.Text.Blank

namespace Archetype.Command

def parsePair (pair : String) : Except Failure (String × String) :=
  match Text.cutFirst '=' pair.toList with
  | (_, none) => .error (.pairWithoutSign pair)
  | (key, some value) =>
    let key := Text.trim Text.isBlank key
    if key.isEmpty then .error .pairWithoutKey
    else .ok (String.ofList key, String.ofList value)

def parsePairs (pairs : List String) : Except Failure (Table String String) :=
  (pairs.mapM parsePair).map Table.ofList

end Archetype.Command
