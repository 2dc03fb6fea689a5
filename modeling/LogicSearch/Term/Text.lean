import LogicSearch.Term.Basic

namespace LogicSearch

inductive Place where
  | alone
  | tail
  deriving DecidableEq

namespace Place

def lead : Place → Char
  | alone => '['
  | tail => ','

/-- A term that is no list cell stands in a tail behind a bar, and closes the list. -/
def around : Place → (List Char → List Char) → List Char → List Char
  | alone, body, after => body after
  | tail, body, after => '|' :: body (']' :: after)

end Place

namespace Term

mutual

def write (place : Place) : Term → List Char → List Char
  | atom a, after =>
      if place = .tail ∧ a = .nil then ']' :: after else place.around (a.chars ++ ·) after
  | int value, after => place.around (Decimal.ofInt value.toInt ++ ·) after
  | var v, after => place.around (fun k => '_' :: 'G' :: (Decimal.ofNat v ++ k)) after
  | compound f first rest, after =>
      match decide (f = .dot), rest with
      | true, [last] => place.lead :: write .alone first (write .tail last after)
      | _, rest =>
          place.around (fun k => f.chars ++ '(' :: write .alone first (writeRest rest k)) after

def writeRest : List Term → List Char → List Char
  | [], after => ')' :: after
  | t :: ts, after => ',' :: write .alone t (writeRest ts after)

end

def text (t : Term) : String := String.ofList (write .alone t [])

end Term

end LogicSearch
