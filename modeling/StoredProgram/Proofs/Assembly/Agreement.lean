import StoredProgram.Assembly.Basic
import StoredProgram.Proofs.Except

/-! # Sources that are read alike

Two sources whose lines correspond one by one, such that each pass does the same with a line of the one as with its
counterpart, are assembled to the same program, or refused with problems that correspond, on lines that correspond
(`agree_ofLines`). -/

namespace StoredProgram.Assembly

/-- Assembles the lines of a source. -/
def ofLines (ls : List Line) : Except SourceError Assembly := do
  let labels ← labelTable (ls.filter (!isDefinition ·))
  let vars ← variableTable (ls.filter (!isDefinition ·)).length (ls.filter isDefinition)
  let code ← (ls.filter (!isDefinition ·)).mapM fun l => onLine l (encoded labels vars l.text)
  return ⟨code.map Prod.fst, code.map Prod.snd, labels, vars⟩

theorem ofSource_eq_ofLines (source : Text) : ofSource source = ofLines source.lines := rfl

/-- What every pass reads alike in two texts of lines, up to related problems. -/
structure ReadAlike (P : Problem → Problem → Prop) (line line' : Text) : Prop where
  kind : keyword.isPrefixOf line = keyword.isPrefixOf line'
  labelled : ∀ labels index, Agree P Eq (addLabel labels index line) (addLabel labels index line')
  declared : ∀ vars address, Agree P Eq (addVariable vars address line) (addVariable vars address line')
  coded : ∀ labels vars, Agree P Eq (encoded labels vars line) (encoded labels vars line')

theorem ReadAlike.refl (line : Text) : ReadAlike Eq line line :=
  ⟨rfl, fun _ _ => .refl .refl _, fun _ _ => .refl .refl _, fun _ _ => .refl .refl _⟩

/-- Errors with related problems on lines with related numbers. -/
def SameFault (N : Nat → Nat → Prop) (P : Problem → Problem → Prop) (e e' : SourceError) : Prop :=
  N e.line e'.line ∧ P e.problem e'.problem

/-- Lines that are read alike and have related numbers. -/
def SameLine (N : Nat → Nat → Prop) (P : Problem → Problem → Prop) (l l' : Line) : Prop :=
  N l.number l'.number ∧ ReadAlike P l.text l'.text

variable {N : Nat → Nat → Prop} {P : Problem → Problem → Prop} {ls ls' : List Line}

theorem forall₂_zipIdx {α β : Type} {R : α → β → Prop} {xs : List α} {ys : List β} (h : List.Forall₂ R xs ys)
    (first : Nat) : List.Forall₂ (fun x y => R x.1 y.1 ∧ x.2 = y.2) (xs.zipIdx first) (ys.zipIdx first) := by
  induction h generalizing first with
  | nil => exact .nil
  | cons h _ ih => exact .cons ⟨h, rfl⟩ (ih (first + 1))

theorem agree_onLine {α : Type} {R : α → α → Prop} {l l' : Line} {x x' : Except Problem α} (hn : N l.number l'.number)
    (h : Agree P R x x') : Agree (SameFault N P) R (onLine l x) (onLine l' x') :=
  h.mapError fun _ _ hp => ⟨hn, hp⟩

theorem agree_labelTable (h : List.Forall₂ (SameLine N P) ls ls') :
    Agree (SameFault N P) Eq (labelTable ls) (labelTable ls') := by
  refine Agree.foldlM (forall₂_zipIdx h 0) ?_ rfl
  rintro labels _ ⟨l, index⟩ ⟨l', _⟩ rfl ⟨hl, rfl⟩
  exact agree_onLine hl.1 (hl.2.labelled labels index)

theorem agree_variableTable (h : List.Forall₂ (SameLine N P) ls ls') (first : Nat) :
    Agree (SameFault N P) Eq (variableTable first ls) (variableTable first ls') := by
  refine Agree.foldlM (forall₂_zipIdx h first) ?_ rfl
  rintro vars _ ⟨l, address⟩ ⟨l', _⟩ rfl ⟨hl, rfl⟩
  exact agree_onLine hl.1 (hl.2.declared vars address)

/-- Lines that are read alike are assembled alike. -/
theorem agree_ofLines (h : List.Forall₂ (SameLine N P) ls ls') :
    Agree (SameFault N P) Eq (ofLines ls) (ofLines ls') := by
  have kind : ∀ l l', SameLine N P l l' → isDefinition l = isDefinition l' := fun _ _ hl => hl.2.kind
  have code : List.Forall₂ (SameLine N P) (ls.filter (!isDefinition ·)) (ls'.filter (!isDefinition ·)) :=
    List.rel_filter (fun l l' hl => by simp only [kind l l' hl]) h
  have definitions : List.Forall₂ (SameLine N P) (ls.filter isDefinition) (ls'.filter isDefinition) :=
    List.rel_filter (fun l l' hl => by simp only [kind l l' hl]) h
  unfold ofLines
  refine (agree_labelTable code).bind ?_
  rintro labels _ rfl
  rw [code.length_eq]
  refine (agree_variableTable definitions _).bind ?_
  rintro vars _ rfl
  refine (Agree.mapM code fun l l' hl => agree_onLine hl.1 (hl.2.coded labels vars)).bind ?_
  rintro is is' his
  obtain rfl : is = is' := by rwa [List.forall₂_eq_eq_eq] at his
  exact .ok rfl

end StoredProgram.Assembly
