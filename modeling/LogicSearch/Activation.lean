import LogicSearch.Goal.Equation
import LogicSearch.Goal.Member
import LogicSearch.Goal.Test
import LogicSearch.Machine
import LogicSearch.Search.Conjunction
import LogicSearch.Search.Disjunction

namespace LogicSearch

inductive Activation (U : Type) where
  | test (t : Test) (called : Bool)
  | equation (e : Equation) (phase : Equation.Phase)
  | member (element : Term) (phase : Member.Phase)
  | conjunction (c : Conjunction (Activation U))
  | disjunction (d : Disjunction (Activation U))
  | plugged (u : U)

end LogicSearch
