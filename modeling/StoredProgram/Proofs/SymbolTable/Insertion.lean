import StoredProgram.Proofs.SymbolTable

/-! # Symbols inserted one after the other

A table without symbols is filled by calls that insert a symbol each. A call is refused if an earlier one has taken
its name or its address, and then it leaves no trace. So the table holds the accepted symbols, no other ones, and each
once (`perm_entries_insertAll`), whichever way it is asked (`firstCome_insertAll`). -/

namespace StoredProgram.SymbolTable

variable {t : SymbolTable} {s : Symbol} {calls : List Symbol}

/-- The table after calls that insert a symbol each. -/
def insertAll (t : SymbolTable) (calls : List Symbol) : SymbolTable :=
  calls.foldl (fun t s => (t.insert s).table) t

/-- The symbols that the calls have not handed back. -/
def accepted (t : SymbolTable) : List Symbol → List Symbol
  | [] => []
  | s :: calls =>
    match t.insert s with
    | ⟨u, none⟩ => s :: u.accepted calls
    | ⟨u, some _⟩ => u.accepted calls

/-- A table that was filled by some calls: first come, first served. -/
structure FirstCome (calls : List Symbol) (t : SymbolTable) : Prop where
  accepts : ∀ s, (t.insert s).refused = none ↔
    ∀ r ∈ empty.accepted calls, r.name ≠ s.name ∧ r.address ≠ s.address
  refuses : ∀ s r, (t.insert s).refused = some r →
    r = s ∧ ∀ later, empty.insertAll (calls ++ s :: later) = empty.insertAll (calls ++ later)
  address : ∀ name a, t.address? name = some a ↔ ⟨name, a⟩ ∈ empty.accepted calls
  name : ∀ name a, t.name? a = some name ↔ ⟨name, a⟩ ∈ empty.accepted calls
  size : t.size = (empty.accepted calls).length
  isEmpty : t.isEmpty = true ↔ t.size = 0
  entries : t.entries.Perm (empty.accepted calls)
  once : t.entries.Nodup
  increasing : t.entries.Pairwise (·.address < ·.address)

/-! ### One call -/

theorem perm_place {l : List Symbol} (h : ∀ e ∈ l, e.address ≠ s.address) : (place s l).Perm (s :: l) := by
  -- Nothing is at the new address, so what is not before it is behind it, and the two filters leave nothing out.
  have behind : l.filter (s.address < ·.address) = l.filter fun e => !decide (e.address < s.address) := by
    refine List.filter_congr fun e he => ?_
    have := h e he
    rw [← decide_not, decide_eq_decide]
    omega
  unfold place
  rw [behind]
  exact List.perm_middle.trans ((List.filter_append_perm _ l).cons s)

theorem insert_of_collides (h : t.Collides s) : t.insert s = { table := t, refused := some s } := by
  unfold insert insert?
  rw [dif_pos h]

theorem insert_of_not_collides (h : ¬t.Collides s) :
    ∃ u, t.insert s = { table := u } ∧ u.entries.Perm (s :: t.entries) := by
  unfold insert insert?
  rw [dif_neg h]
  exact ⟨_, rfl, perm_place fun e he ha => h ⟨e, he, Or.inr ha⟩⟩

theorem refused_insert_eq_none_iff : (t.insert s).refused = none ↔ ¬t.Collides s := by
  by_cases h : t.Collides s
  · rw [insert_of_collides h]
    exact iff_of_false nofun (not_not_intro h)
  · obtain ⟨u, hu, -⟩ := insert_of_not_collides h
    rw [hu]
    exact iff_of_true rfl h

theorem insert_of_refused {r : Symbol} (h : (t.insert s).refused = some r) : r = s ∧ (t.insert s).table = t := by
  by_cases hc : t.Collides s
  · rw [insert_of_collides hc] at h ⊢
    cases h
    exact ⟨rfl, rfl⟩
  · rw [refused_insert_eq_none_iff.mpr hc] at h
    cases h

/-! ### Calls one after the other -/

theorem accepted_cons_of_collides (h : t.Collides s) : t.accepted (s :: calls) = t.accepted calls := by
  rw [accepted, insert_of_collides h]

/-- A table gains what the calls have inserted, and nothing else. -/
theorem perm_entries_insertAll (t : SymbolTable) (calls : List Symbol) :
    (t.insertAll calls).entries.Perm (t.entries ++ t.accepted calls) := by
  induction calls generalizing t with
  | nil =>
    rw [accepted, List.append_nil]
    rfl
  | cons s calls ih =>
    show ((t.insert s).table.insertAll calls).entries.Perm _
    by_cases h : t.Collides s
    · rw [accepted_cons_of_collides h, insert_of_collides h]
      exact ih t
    · obtain ⟨u, hu, taken⟩ := insert_of_not_collides h
      rw [accepted, hu]
      exact (ih u).trans ((taken.append_right _).trans List.perm_middle.symm)

theorem insertAll_append (t : SymbolTable) (calls later : List Symbol) :
    t.insertAll (calls ++ later) = (t.insertAll calls).insertAll later :=
  List.foldl_append

theorem mem_accepted_iff : s ∈ empty.accepted calls ↔ s ∈ (empty.insertAll calls).entries :=
  (perm_entries_insertAll empty calls).mem_iff.symm

/-- After any calls, a table that had no symbols answers for exactly the accepted ones. -/
theorem firstCome_insertAll (calls : List Symbol) : FirstCome calls (empty.insertAll calls) where
  accepts s := by
    rw [refused_insert_eq_none_iff]
    simp only [Collides, mem_accepted_iff, not_exists, not_and, not_or]
  refuses s r h := by
    obtain ⟨hr, keeps⟩ := insert_of_refused h
    refine ⟨hr, fun later => ?_⟩
    rw [insertAll_append, insertAll_append]
    exact congrArg (·.insertAll later) keeps
  address name a := address?_eq_some_iff.trans mem_accepted_iff.symm
  name name a := name?_eq_some_iff.trans mem_accepted_iff.symm
  size := (perm_entries_insertAll empty calls).length_eq
  isEmpty := List.isEmpty_iff_length_eq_zero
  entries := perm_entries_insertAll empty calls
  once := (nodup_addresses _).of_map
  increasing := (empty.insertAll calls).increasing

end StoredProgram.SymbolTable
