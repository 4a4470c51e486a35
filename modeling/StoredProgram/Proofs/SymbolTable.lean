import Mathlib.Data.List.Nodup
import StoredProgram.SymbolTable

/-! # Lookups in symbol tables

The entries of a table say all there is to know of it (`ext`): a lookup, by name or by address, finds
exactly the entries (`address?_eq_some_iff`, `name?_eq_some_iff`). A symbol behind all addresses of a table
is added at the end (`insert?_eq_some_iff`). -/

namespace StoredProgram.SymbolTable

variable {t u : SymbolTable}

theorem ext (h : t.entries = u.entries) : t = u := by
  cases t
  cases u
  cases h
  rfl

/-! ### Lookups -/

theorem nodup_addresses (t : SymbolTable) : (t.entries.map Symbol.address).Nodup := by
  rw [List.nodup_iff_pairwise_ne, List.pairwise_map]
  exact t.increasing.imp fun h => Int.ne_of_lt h

theorem eq_of_address_eq {s r : Symbol} (hs : s ∈ t.entries) (hr : r ∈ t.entries)
    (h : s.address = r.address) : s = r :=
  List.inj_on_of_nodup_map t.nodup_addresses hs hr h

theorem eq_of_name_eq {s r : Symbol} (hs : s ∈ t.entries) (hr : r ∈ t.entries) (h : s.name = r.name) :
    s = r :=
  eq_of_address_eq hs hr (t.single s hs r hr h)

theorem address?_eq_some_iff {name : Text} {a : Int} :
    t.address? name = some a ↔ ⟨name, a⟩ ∈ t.entries := by
  unfold address?
  rw [Option.map_eq_some_iff]
  refine ⟨fun h => ?_, fun h => ?_⟩
  · obtain ⟨s, hs, rfl⟩ := h
    have hn : s.name = name := by simpa using List.find?_some hs
    exact hn ▸ List.mem_of_find?_eq_some hs
  · cases hf : t.entries.find? (·.name == name) with
    | none => exact absurd (List.find?_eq_none.mp hf _ h) (by simp)
    | some s =>
      have hn : s.name = name := by simpa using List.find?_some hf
      exact ⟨s, rfl, congrArg Symbol.address (eq_of_name_eq (List.mem_of_find?_eq_some hf) h hn)⟩

theorem name?_eq_some_iff {name : Text} {a : Int} : t.name? a = some name ↔ ⟨name, a⟩ ∈ t.entries := by
  unfold name?
  rw [Option.map_eq_some_iff]
  refine ⟨fun h => ?_, fun h => ?_⟩
  · obtain ⟨s, hs, rfl⟩ := h
    have ha : s.address = a := by simpa using List.find?_some hs
    exact ha ▸ List.mem_of_find?_eq_some hs
  · cases hf : t.entries.find? (·.address == a) with
    | none => exact absurd (List.find?_eq_none.mp hf _ h) (by simp)
    | some s =>
      have ha : s.address = a := by simpa using List.find?_some hf
      exact ⟨s, rfl, congrArg Symbol.name (eq_of_address_eq (List.mem_of_find?_eq_some hf) h ha)⟩

theorem nodup_names (t : SymbolTable) : (t.entries.map Symbol.name).Nodup := by
  rw [List.nodup_iff_pairwise_ne, List.pairwise_map]
  refine List.Pairwise.imp_of_mem (fun {s r} hs hr hlt hn => ?_) t.increasing
  exact absurd (t.single s hs r hr hn) (Int.ne_of_lt hlt)

theorem eq_of_address?_iff (h : ∀ name a, t.address? name = some a ↔ u.address? name = some a) : t = u := by
  have same : t.entries.Perm u.entries := by
    refine (List.perm_ext_iff_of_nodup t.nodup_names.of_map u.nodup_names.of_map).mpr fun s => ?_
    exact address?_eq_some_iff.symm.trans ((h s.name s.address).trans address?_eq_some_iff)
  exact ext (same.eq_of_pairwise (fun _ _ _ _ h h' => absurd h (Int.lt_asymm h')) t.increasing u.increasing)

/-- Where names have been given to the addresses from a first one on, a lookup by address counts the names. -/
theorem name?_of_entries {names : List Text} {first : Nat}
    (h : t.entries = (names.zipIdx first).map fun (name, address) => ⟨name, address⟩) (rank : Nat) :
    t.name? (first + rank : Nat) = names[rank]? := by
  refine Option.ext fun name => ?_
  rw [name?_eq_some_iff, h, List.mem_map]
  constructor
  · rintro ⟨⟨name', index⟩, hm, hs⟩
    obtain ⟨rfl, hi⟩ := Symbol.mk.inj hs
    obtain ⟨-, hg⟩ := List.mk_mem_zipIdx_iff_le_and_getElem?_sub.mp hm
    rwa [Int.ofNat.inj hi, Nat.add_sub_cancel_left] at hg
  · intro hg
    refine ⟨(name, first + rank), List.mk_mem_zipIdx_iff_le_and_getElem?_sub.mpr ⟨Nat.le_add_right .., ?_⟩, rfl⟩
    rwa [Nat.add_sub_cancel_left]

/-! ### Adding at the end -/

theorem place_eq_append {s : Symbol} {l : List Symbol} (h : ∀ e ∈ l, e.address < s.address) :
    place s l = l ++ [s] := by
  have before : l.filter (·.address < s.address) = l := List.filter_eq_self.mpr (by simpa using h)
  have behind : l.filter (s.address < ·.address) = [] := by
    rw [List.filter_eq_nil_iff]
    intro e he
    have := h e he
    simp; omega
  rw [place, before, behind]

theorem collides_iff_of_lt {s : Symbol} (h : ∀ e ∈ t.entries, e.address < s.address) :
    t.Collides s ↔ s.name ∈ t.entries.map Symbol.name := by
  rw [List.mem_map]
  refine ⟨fun h => ?_, fun h => ?_⟩
  · obtain ⟨e, he, hn | ha⟩ := h
    · exact ⟨e, he, hn⟩
    · exact absurd ha (Int.ne_of_lt (h e he))
  · obtain ⟨e, he, hn⟩ := h
    exact ⟨e, he, Or.inl hn⟩

theorem insert?_eq_some_iff {s : Symbol} (h : ∀ e ∈ t.entries, e.address < s.address) :
    t.insert? s = some u ↔ s.name ∉ t.entries.map Symbol.name ∧ u.entries = t.entries ++ [s] := by
  rw [← collides_iff_of_lt h]
  unfold insert?
  split
  · rename_i hc
    exact ⟨fun h => (nomatch h), fun h => absurd hc h.1⟩
  · rename_i hc
    rw [Option.some.injEq]
    refine ⟨fun hu => ⟨hc, ?_⟩, fun hu => ext ?_⟩
    · rw [← hu]
      exact place_eq_append h
    · rw [hu.2]
      exact place_eq_append h

theorem insert?_eq_none_iff {s : Symbol} (h : ∀ e ∈ t.entries, e.address < s.address) :
    t.insert? s = none ↔ s.name ∈ t.entries.map Symbol.name := by
  rw [← collides_iff_of_lt h]
  unfold insert?
  split
  · rename_i hc
    exact iff_of_true rfl hc
  · rename_i hc
    exact iff_of_false nofun hc

theorem exists_insert?_eq_some {s : Symbol} (h : ∀ e ∈ t.entries, e.address < s.address)
    (hn : s.name ∉ t.entries.map Symbol.name) : ∃ u, t.insert? s = some u :=
  Option.ne_none_iff_exists'.mp (mt (insert?_eq_none_iff h).mp hn)

end StoredProgram.SymbolTable
