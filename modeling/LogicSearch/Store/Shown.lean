import LogicSearch.Store.Basic
import LogicSearch.Term.Text

namespace LogicSearch

namespace Term

mutual

/-- Writes a term in front of what is given to the result, one part after the other; `value` writes
the variables, each at its place. -/
def writeWith (value : Place → Var → Option (List Char → List Char)) (place : Place) :
    Term → Option (List Char → List Char)
  | atom a => some (write place (atom a))
  | int n => some (write place (int n))
  | var v => value place v
  | compound f first rest =>
    match decide (f = .dot), rest with
    | true, [last] =>
      match writeWith value .alone first, writeWith value .tail last with
      | some head, some tail => some fun after => place.lead :: head (tail after)
      | _, _ => none
    | _, rest =>
      match writeWith value .alone first, writeRestWith value rest with
      | some head, some others =>
          some (place.around fun after => f.chars ++ '(' :: head (others after))
      | _, _ => none

def writeRestWith (value : Place → Var → Option (List Char → List Char)) :
    List Term → Option (List Char → List Char)
  | [] => some fun after => ')' :: after
  | t :: ts =>
    match writeWith value .alone t, writeRestWith value ts with
    | some first, some others => some fun after => ',' :: first (others after)
    | _, _ => none

end

end Term

namespace Store

def writeVar (s : Store) : Nat → Place → Var → Option (List Char → List Char)
  | 0, place, v => if s.isBound v then none else some ((Term.var v).write place)
  | depth + 1, place, v =>
    match s.deref (.var v) with
    | none => none
    | some (.var w) => some ((Term.var w).write place)
    | some t => t.writeWith (s.writeVar depth) place

/-- The text of a term. Bindings are followed at the head of each term and at the tail of each list
cell, so there is none of a term that contains itself. -/
def text? (s : Store) (t : Term) : Option String :=
  (t.writeWith (s.writeVar s.size) .alone).map fun written => String.ofList (written [])

/-- The text of a term, and a mark where there is none. -/
def text (s : Store) (t : Term) : String := (s.text? t).getD "<cyclic>"

end Store

end LogicSearch
