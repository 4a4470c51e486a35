import StoredProgram.Assembly.Basic
import StoredProgram.Proofs.Except
import StoredProgram.Proofs.SymbolTable

/-! # Passes that collect symbols

The first two passes over a source are alike: each reads in a line the name that the line introduces, if
it introduces one, and enters it into a table at the address of the line. Such a pass succeeds just if it
can read every line and no name is introduced twice, and then its table holds the names with the addresses
of their lines, in order (`SymbolPass.run_eq_ok_iff`). -/

namespace StoredProgram.Assembly

/-- How a pass reads the name that a line introduces, and what is wrong with a line that introduces a
    name again. -/
structure SymbolPass where
  introduced : Text → Except Problem (Option Text)
  again : Text → Problem

theorem onLine_eq_error_iff {α : Type} {l : Line} {r : Except Problem α} {e : SourceError} :
    onLine l r = .error e ↔ l.number = e.line ∧ r = .error e.problem := by
  obtain ⟨n, q⟩ := e
  cases r <;> simp [onLine, Except.mapError]

namespace SymbolPass

variable {p : SymbolPass} {t u : SymbolTable} {first : Nat}

/-- The name that a line introduces, if the line can be read and introduces one. -/
def name? (p : SymbolPass) (line : Text) : Option Text := (p.introduced line).toOption.join

/-- The symbols that lines introduce, the first line being at the given address. -/
def symbols (p : SymbolPass) (first : Nat) : List Text → List Symbol
  | [] => []
  | line :: ls => ((p.name? line).map (Symbol.mk · first)).toList ++ symbols p (first + 1) ls

/-- Enters the name that a line introduces. -/
def add (p : SymbolPass) (t : SymbolTable) (address : Nat) (line : Text) : Except Problem SymbolTable :=
  match p.introduced line with
  | .error e => .error e
  | .ok none => .ok t
  | .ok (some name) =>
    match t.insert? ⟨name, address⟩ with
    | some t => .ok t
    | none => .error (p.again line)

/-- Enters the names that lines introduce, in order. -/
def run (p : SymbolPass) (first : Nat) (ls : List Line) (t : SymbolTable) : Except SourceError SymbolTable :=
  (ls.zipIdx first).foldlM (fun t (l, address) => onLine l (p.add t address l.text)) t

/-! ### Symbols of lines -/

theorem name?_of_introduced {line : Text} {o : Option Text} (h : p.introduced line = .ok o) :
    p.name? line = o := by
  rw [name?, h]
  rfl

theorem name?_eq_some_iff {line name : Text} :
    p.name? line = some name ↔ p.introduced line = .ok (some name) := by
  unfold name?
  cases p.introduced line <;> simp [Except.toOption]

theorem symbols_append (ls ks : List Text) :
    p.symbols first (ls ++ ks) = p.symbols first ls ++ p.symbols (first + ls.length) ks := by
  induction ls generalizing first with
  | nil => rfl
  | cons line ls ih =>
    have shift : first + 1 + ls.length = first + (line :: ls).length := by simp; omega
    rw [List.cons_append, symbols, ih, symbols, List.append_assoc, shift]

theorem symbols_eq_map_zipIdx {ls names : List Text}
    (h : List.Forall₂ (fun line name => p.name? line = some name) ls names) :
    p.symbols first ls = (names.zipIdx first).map fun (name, address) => ⟨name, address⟩ := by
  induction h generalizing first with
  | nil => rfl
  | cons hn _ ih => rw [symbols, hn, ih, List.zipIdx_cons, List.map_cons, Option.map_some, Option.toList_some,
      List.singleton_append]

theorem map_name_symbols {ls names : List Text}
    (h : List.Forall₂ (fun line name => p.name? line = some name) ls names) :
    (p.symbols first ls).map Symbol.name = names := by
  rw [symbols_eq_map_zipIdx h, List.map_map]
  exact List.zipIdx_map_fst first names

/-- A symbol is the name that the line at its address introduces. -/
theorem mem_symbols_iff {s : Symbol} {ls : List Text} :
    s ∈ p.symbols first ls ↔
      ∃ i line, ls[i]? = some line ∧ p.name? line = some s.name ∧ s.address = (first + i : Nat) := by
  induction ls generalizing first with
  | nil => simp [symbols]
  | cons line ls ih =>
    rw [symbols, List.mem_append, Option.mem_toList, Option.map_eq_some_iff, ih]
    refine ⟨fun h => ?_, fun h => ?_⟩
    · rcases h with ⟨name, hn, rfl⟩ | ⟨i, k, hk, hn, ha⟩
      · exact ⟨0, line, rfl, hn, rfl⟩
      · exact ⟨i + 1, k, hk, hn, by rw [ha]; omega⟩
    · obtain ⟨i, k, hk, hn, ha⟩ := h
      cases i with
      | zero =>
        cases hk
        exact Or.inl ⟨s.name, hn, by rw [Nat.add_zero] at ha; rw [← ha]⟩
      | succ i => exact Or.inr ⟨i, k, hk, hn, by rw [ha]; omega⟩

theorem address_lt_of_mem_symbols {s : Symbol} {ls : List Text} (h : s ∈ p.symbols first ls) :
    first ≤ s.address ∧ s.address < (first + ls.length : Nat) := by
  obtain ⟨i, line, hi, -, ha⟩ := mem_symbols_iff.mp h
  have := (List.getElem?_eq_some_iff.mp hi).1
  omega

theorem pairwise_symbols (ls : List Text) :
    (p.symbols first ls).Pairwise (·.address < ·.address) := by
  induction ls generalizing first with
  | nil => exact .nil
  | cons line ls ih =>
    rw [symbols]
    cases p.name? line with
    | none => exact ih
    | some name =>
      refine List.pairwise_cons.mpr ⟨fun s hs => ?_, ih⟩
      have := (address_lt_of_mem_symbols hs).1
      show (first : Int) < s.address
      omega

theorem nodup_symbols (ls : List Text) : (p.symbols first ls).Nodup :=
  List.nodup_iff_pairwise_ne.mpr ((pairwise_symbols ls).imp fun h he => Int.ne_of_lt h (congrArg _ he))

theorem nodup_names_symbols_iff {ls : List Text} :
    ((p.symbols first ls).map Symbol.name).Nodup ↔
      ∀ (i j : Nat) (line line' name : Text), ls[i]? = some line → ls[j]? = some line' →
        p.name? line = some name → p.name? line' = some name → i = j := by
  constructor
  · intro h i j line line' name hi hj hn hn'
    have hs : Symbol.mk name (first + i : Nat) ∈ p.symbols first ls :=
      mem_symbols_iff.mpr ⟨i, line, hi, hn, rfl⟩
    have hr : Symbol.mk name (first + j : Nat) ∈ p.symbols first ls :=
      mem_symbols_iff.mpr ⟨j, line', hj, hn', rfl⟩
    have : ((first + i : Nat) : Int) = (first + j : Nat) :=
      congrArg Symbol.address (List.inj_on_of_nodup_map h hs hr rfl)
    omega
  · intro h
    refine (nodup_symbols ls).map_on fun s hs r hr hsr => ?_
    obtain ⟨i, line, hi, hn, ha⟩ := mem_symbols_iff.mp hs
    obtain ⟨j, line', hj, hn', ha'⟩ := mem_symbols_iff.mp hr
    have hij := h i j line line' s.name hi hj hn (hsr ▸ hn')
    cases s
    cases r
    exact Symbol.mk.injEq .. ▸ ⟨hsr, ha.trans (hij ▸ ha'.symm)⟩

/-- The table of the symbols of lines, no two of which introduce one name. -/
def table (p : SymbolPass) (first : Nat) (ls : List Text)
    (h : ((p.symbols first ls).map Symbol.name).Nodup) : SymbolTable where
  entries := p.symbols first ls
  increasing := pairwise_symbols ls
  single _ hs _ hr hn := congrArg _ (List.inj_on_of_nodup_map h hs hr hn)

/-! ### Outcome -/

theorem add_eq_ok_iff {a : Nat} {line : Text} (h : ∀ e ∈ t.entries, e.address < a) :
    p.add t a line = .ok u ↔
      (∃ o, p.introduced line = .ok o) ∧ (∀ name ∈ p.name? line, name ∉ t.entries.map Symbol.name) ∧
        u.entries = t.entries ++ ((p.name? line).map (Symbol.mk · a)).toList := by
  unfold add
  cases hr : p.introduced line with
  | error e => simp
  | ok o =>
    rw [name?_of_introduced hr]
    cases o with
    | none =>
      simp only [Except.ok.injEq, exists_eq', true_and, Option.map_none, Option.toList_none, List.append_nil]
      exact ⟨fun h => h ▸ ⟨fun _ hn => (nomatch hn), rfl⟩, fun h => (SymbolTable.ext h.2).symm⟩
    | some name =>
      have hi := SymbolTable.insert?_eq_some_iff (u := u) (s := ⟨name, a⟩) h
      simp only [Except.ok.injEq, exists_eq', true_and, Option.mem_some_iff, forall_eq', Option.map_some,
        Option.toList_some]
      rw [← hi]
      cases t.insert? ⟨name, a⟩ <;> simp

theorem run_cons {l : Line} {ls : List Line} :
    p.run first (l :: ls) t = onLine l (p.add t first l.text) >>= p.run (first + 1) ls := by
  unfold run
  rw [List.zipIdx_cons, List.foldlM_cons]

theorem run_append (before behind : List Line) :
    p.run first (before ++ behind) t = p.run first before t >>= p.run (first + before.length) behind := by
  unfold run
  rw [List.zipIdx_append, List.foldlM_append]

theorem run_cons_eq_ok_iff {l : Line} {ls : List Line} :
    p.run first (l :: ls) t = .ok u ↔
      ∃ t', p.add t first l.text = .ok t' ∧ p.run (first + 1) ls t' = .ok u := by
  rw [run_cons, bind_eq_ok_iff]
  simp only [onLine, mapError_eq_ok_iff]

theorem exists_add_eq_ok {a : Nat} {line : Text} (h : ∀ e ∈ t.entries, e.address < a)
    (hl : ∃ o, p.introduced line = .ok o)
    (hn : ∀ name ∈ p.name? line, name ∉ t.entries.map Symbol.name) : ∃ u, p.add t a line = .ok u := by
  obtain ⟨o, ho⟩ := hl
  rw [name?_of_introduced ho] at hn
  unfold add
  rw [ho]
  cases o with
  | none => exact ⟨t, rfl⟩
  | some name =>
    obtain ⟨u, hu⟩ := SymbolTable.exists_insert?_eq_some (s := ⟨name, a⟩) h (hn name rfl)
    exact ⟨u, by simp only [hu]⟩

theorem fresh_of_nodup {a : Nat} {line : Text} {entries rest : List Symbol}
    (h : ((entries ++ ((p.name? line).map (Symbol.mk · a)).toList ++ rest).map Symbol.name).Nodup) :
    ∀ name ∈ p.name? line, name ∉ entries.map Symbol.name := by
  intro name hn hm
  rw [List.map_append, List.map_append, List.append_assoc] at h
  refine (List.nodup_append.mp h).2.2 name hm name (List.mem_append_left _ ?_) rfl
  simp [Option.mem_def.mp hn]

theorem lt_of_add {line : Text} (h : ∀ e ∈ t.entries, e.address < first) (hu : p.add t first line = .ok u) :
    ∀ e ∈ u.entries, e.address < (first + 1 : Nat) := by
  intro e he
  rw [((add_eq_ok_iff h).mp hu).2.2, List.mem_append, Option.mem_toList] at he
  rcases he with he | he
  · have := h e he
    omega
  · obtain ⟨name, -, rfl⟩ := Option.map_eq_some_iff.mp he
    exact Int.lt_add_one_iff.mpr (Int.le_refl _)

/-- A pass goes on from a table with lower addresses. -/
theorem run_eq_ok_iff_of_lt {ls : List Line} (h : ∀ e ∈ t.entries, e.address < first) :
    p.run first ls t = .ok u ↔
      (∀ l ∈ ls, ∃ o, p.introduced l.text = .ok o) ∧
        u.entries = t.entries ++ p.symbols first (ls.map Line.text) := by
  -- The table and the next address vary: what is entered so far is the part of the lines before.
  induction ls generalizing t first with
  | nil =>
    have done : p.run first [] t = .ok t := rfl
    simp only [done, Except.ok.injEq, List.map_nil, symbols, List.append_nil]
    exact ⟨fun h => h ▸ ⟨fun _ hl => (nomatch hl), rfl⟩, fun h => (SymbolTable.ext h.2).symm⟩
  | cons l ls ih =>
    rw [run_cons_eq_ok_iff, List.map_cons, symbols, ← List.append_assoc, List.forall_mem_cons]
    refine ⟨fun h => ?_, fun h => ?_⟩
    · obtain ⟨t', ht, hu⟩ := h
      obtain ⟨hl, -, he⟩ := (add_eq_ok_iff h).mp ht
      rw [ih (lt_of_add h ht), he] at hu
      exact ⟨⟨hl, hu.1⟩, hu.2⟩
    · obtain ⟨⟨hl, hls⟩, hu⟩ := h
      obtain ⟨t', ht⟩ := exists_add_eq_ok h hl (fresh_of_nodup (hu ▸ u.nodup_names))
      rw [← ((add_eq_ok_iff h).mp ht).2.2] at hu
      exact ⟨t', ht, (ih (lt_of_add h ht)).mpr ⟨hls, hu⟩⟩

/-- A pass that succeeds has read every line and has the symbols of the lines in its table. -/
theorem run_eq_ok_iff {ls : List Line} :
    p.run first ls .empty = .ok u ↔
      (∀ line ∈ ls.map Line.text, ∃ o, p.introduced line = .ok o) ∧
        u.entries = p.symbols first (ls.map Line.text) := by
  rw [List.forall_mem_map]
  exact run_eq_ok_iff_of_lt (t := .empty) fun _ h => (nomatch h)

/-! ### Refusals -/

theorem add_eq_error_iff {a : Nat} {line : Text} {q : Problem} (h : ∀ e ∈ t.entries, e.address < a) :
    p.add t a line = .error q ↔ p.introduced line = .error q ∨
      ∃ name, p.name? line = some name ∧ name ∈ t.entries.map Symbol.name ∧ q = p.again line := by
  unfold add
  simp only [name?_eq_some_iff]
  cases p.introduced line with
  | error e => simp
  | ok o =>
    cases o with
    | none => simp
    | some name =>
      have hi := SymbolTable.insert?_eq_none_iff (s := ⟨name, a⟩) h
      simp only [Except.ok.injEq, Option.some.injEq, reduceCtorEq, false_or, exists_eq_left']
      cases ht : t.insert? ⟨name, a⟩ with
      | none => simp [hi.mp ht, eq_comm]
      | some u =>
        have fresh : name ∉ t.entries.map Symbol.name := fun hn => by
          rw [hi.mpr hn] at ht
          cases ht
        simp [fresh]

theorem run_eq_error_iff {ls : List Line} {e : SourceError} :
    p.run first ls t = .error e ↔ ∃ before l behind u, ls = before ++ l :: behind ∧ p.run first before t = .ok u ∧
      l.number = e.line ∧ p.add u (first + before.length) l.text = .error e.problem := by
  induction ls generalizing t first with
  | nil =>
    refine ⟨fun h => (nomatch h), fun ⟨before, l, behind, u, h, _⟩ => ?_⟩
    exact absurd h.symm (by simp)
  | cons l ls ih =>
    rw [run_cons, bind_eq_error_iff, onLine_eq_error_iff]
    simp only [onLine, mapError_eq_ok_iff]
    refine ⟨fun h => ?_, fun h => ?_⟩
    · rcases h with ⟨hn, he⟩ | ⟨t', ht, h⟩
      · exact ⟨[], l, ls, t, rfl, rfl, hn, he⟩
      · obtain ⟨before, k, behind, u, rfl, hu, hn, he⟩ := ih.mp h
        refine ⟨l :: before, k, behind, u, rfl, run_cons_eq_ok_iff.mpr ⟨t', ht, hu⟩, hn, ?_⟩
        rwa [List.length_cons, Nat.add_comm before.length, ← Nat.add_assoc]
    · obtain ⟨before, k, behind, u, hs, hu, hn, he⟩ := h
      cases before with
      | nil =>
        cases hs
        cases hu
        exact Or.inl ⟨hn, he⟩
      | cons l' before =>
        cases hs
        obtain ⟨t', ht, hu⟩ := run_cons_eq_ok_iff.mp hu
        rw [List.length_cons, Nat.add_comm before.length, ← Nat.add_assoc] at he
        exact Or.inr ⟨t', ht, ih.mpr ⟨before, k, behind, u, rfl, hu, hn, he⟩⟩

theorem mem_names_symbols_iff {ls : List Text} {name : Text} :
    name ∈ (p.symbols first ls).map Symbol.name ↔ ∃ line ∈ ls, p.name? line = some name := by
  induction ls generalizing first with
  | nil => simp [symbols]
  | cons line ls ih =>
    rw [symbols, List.map_append, List.mem_append, ih]
    cases hn : p.name? line <;> simp [hn, eq_comm]

end SymbolPass
end StoredProgram.Assembly
