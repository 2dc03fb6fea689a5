import LogicSearch.Store.Snapshot

namespace LogicSearch

structure Machine where
  store : Store
  journal : List String

namespace Machine

def empty : Machine := ⟨Store.empty, []⟩

def withStore (m : Machine) (s : Store) : Machine := ⟨s, m.journal⟩

def note (m : Machine) (line : String) : Machine := ⟨m.store, m.journal ++ [line]⟩

def restore (m : Machine) (p : Snapshot) : Machine := m.withStore (m.store.restore p)

end Machine

end LogicSearch
