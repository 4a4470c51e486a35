import StoredProgram.Text.Basic

/-! # Symbol tables

A symbol table gives names to addresses, one name to an address and one address to a name. Its entries
stand in the order of their addresses. Inserting never replaces an entry: a symbol whose name or address
is taken is refused. -/

namespace StoredProgram

/-- A name with the address it stands for. -/
structure Symbol where
  name : Text
  address : Int
  deriving DecidableEq

/-- Symbols by increasing address, in which a name has one address. -/
structure SymbolTable where
  entries : List Symbol
  increasing : entries.Pairwise (·.address < ·.address)
  single : ∀ s ∈ entries, ∀ t ∈ entries, s.name = t.name → s.address = t.address

namespace SymbolTable

/-- The table without symbols. -/
def empty : SymbolTable := ⟨[], .nil, by simp⟩

/-- The number of symbols. -/
def size (t : SymbolTable) : Nat := t.entries.length

/-- There are no symbols. -/
def isEmpty (t : SymbolTable) : Bool := t.entries.isEmpty

/-- The address of a name. -/
def address? (t : SymbolTable) (name : Text) : Option Int :=
  (t.entries.find? (·.name == name)).map Symbol.address

/-- The name of an address. -/
def name? (t : SymbolTable) (address : Int) : Option Text :=
  (t.entries.find? (·.address == address)).map Symbol.name

/-- A symbol collides with a table that holds its name or its address. -/
def Collides (t : SymbolTable) (s : Symbol) : Prop :=
  ∃ e ∈ t.entries, e.name = s.name ∨ e.address = s.address

instance (t : SymbolTable) (s : Symbol) : Decidable (t.Collides s) :=
  inferInstanceAs (Decidable (∃ e ∈ t.entries, _))

/-- The symbols with the new one at the place of its address. -/
def place (s : Symbol) (entries : List Symbol) : List Symbol :=
  entries.filter (·.address < s.address) ++ s :: entries.filter (s.address < ·.address)

theorem increasing_place {s : Symbol} {l : List Symbol} (h : l.Pairwise (·.address < ·.address)) :
    (place s l).Pairwise (·.address < ·.address) := by
  refine List.pairwise_append.mpr ⟨h.filter _, List.pairwise_cons.mpr ⟨?_, h.filter _⟩, ?_⟩
  · intro x hx
    simpa using (List.mem_filter.mp hx).2
  · intro x hx y hy
    have hxs : x.address < s.address := by simpa using (List.mem_filter.mp hx).2
    rcases List.mem_cons.mp hy with rfl | hy
    · exact hxs
    · have hsy : s.address < y.address := by simpa using (List.mem_filter.mp hy).2
      omega

theorem eq_or_mem_of_mem_place {s x : Symbol} {l : List Symbol} (h : x ∈ place s l) :
    x = s ∨ x ∈ l := by
  simp only [place, List.mem_append, List.mem_cons, List.mem_filter] at h
  rcases h with h | h | h
  · exact .inr h.1
  · exact .inl h
  · exact .inr h.1

/-- Adds a symbol, unless it collides with the table. -/
def insert? (t : SymbolTable) (s : Symbol) : Option SymbolTable :=
  if h : t.Collides s then none
  else
    some {
      entries := place s t.entries
      increasing := increasing_place t.increasing
      single := by
        intro x hx y hy hxy
        rcases eq_or_mem_of_mem_place hx with hx | hx <;>
          rcases eq_or_mem_of_mem_place hy with hy | hy
        · rw [hx, hy]
        · exact absurd ⟨y, hy, .inl (hxy.symm.trans (congrArg _ hx))⟩ h
        · exact absurd ⟨x, hx, .inl (hxy.trans (congrArg _ hy))⟩ h
        · exact t.single x hx y hy hxy }

/-- The table after a symbol was to be inserted, and the symbol handed back if it was refused. -/
structure Insertion where
  table : SymbolTable
  refused : Option Symbol := none

/-- Inserts a symbol, or refuses it and keeps the table as it is. -/
def insert (t : SymbolTable) (s : Symbol) : Insertion :=
  match t.insert? s with
  | some u => { table := u }
  | none => { table := t, refused := some s }

end SymbolTable
end StoredProgram
