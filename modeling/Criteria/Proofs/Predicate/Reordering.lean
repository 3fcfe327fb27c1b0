import Criteria.Proofs.Predicate.Shape

/-! # Predicates up to the order of conjuncts

The operands of a conjunction may stand in any order, at every depth of a predicate. Predicates that
are equal but for this order stay so when they are joined by `and` and `or`
(`Reordered.and`, `Reordered.or`), and `and` may join its operands in any order
(`and_right_comm_reordered`).
-/

set_option autoImplicit false

namespace Criteria.Predicate

/-- The same tree, but for the order of the operands of conjunctions at any depth: the least
relation that orders those of one conjunction anew, is kept below every predicate, and can be
repeated. -/
inductive Reordered : Predicate → Predicate → Prop
  | refl (p : Predicate) : Reordered p p
  | trans {p q r : Predicate} (first : Reordered p q) (second : Reordered q r) : Reordered p r
  | order {children others : List Predicate} (perm : children.Perm others) :
      Reordered (conjunction children) (conjunction others)
  | conjunct {front back : List Predicate} {p q : Predicate} (inner : Reordered p q) :
      Reordered (conjunction (front ++ p :: back)) (conjunction (front ++ q :: back))
  | disjunct {front back : List Predicate} {p q : Predicate} (inner : Reordered p q) :
      Reordered (disjunction (front ++ p :: back)) (disjunction (front ++ q :: back))
  | filter {test : Existence} {relationship : RelationshipPath} {p q : Predicate}
      (inner : Reordered p q) :
      Reordered (existence test relationship (some p)) (existence test relationship (some q))

namespace Reordered

variable {p p' q q' r s : Predicate}

theorem all_iff (h : p.Reordered q) : p = all ↔ q = all := by
  induction h with
  | refl p => rfl
  | trans _ _ hfirst hsecond => exact hfirst.trans hsecond
  | order => exact iff_of_false nofun nofun
  | conjunct => exact iff_of_false nofun nofun
  | disjunct => exact iff_of_false nofun nofun
  | filter => exact iff_of_false nofun nofun

/-! ## Operands among others -/

theorem among_conjuncts (h : p.Reordered q) (front back : List Predicate) :
    Reordered (conjunction (front ++ p.conjuncts ++ back))
      (conjunction (front ++ q.conjuncts ++ back)) := by
  -- A step within a conjunction is one among more operands; any other one is below a single one.
  have single : ∀ {p q : Predicate}, p.Reordered q → Reordered (conjunction (front ++ [p] ++ back))
      (conjunction (front ++ [q] ++ back)) := by
    intro p q h
    rw [List.append_assoc, List.append_assoc]
    exact .conjunct h
  induction h with
  | refl p => exact .refl _
  | trans _ _ hfirst hsecond => exact hfirst.trans hsecond
  | order perm => exact .order ((perm.append_left front).append_right back)
  | @conjunct before behind p q inner _ =>
    have hstep : Reordered (conjunction ((front ++ before) ++ p :: (behind ++ back)))
        (conjunction ((front ++ before) ++ q :: (behind ++ back))) := .conjunct inner
    simpa [conjuncts] using hstep
  | disjunct inner _ => exact single (.disjunct inner)
  | filter inner _ => exact single (.filter inner)

theorem among_disjuncts (h : p.Reordered q) (front back : List Predicate) :
    Reordered (disjunction (front ++ p.disjuncts ++ back))
      (disjunction (front ++ q.disjuncts ++ back)) := by
  have single : ∀ {p q : Predicate}, p.Reordered q → Reordered (disjunction (front ++ [p] ++ back))
      (disjunction (front ++ [q] ++ back)) := by
    intro p q h
    rw [List.append_assoc, List.append_assoc]
    exact .disjunct h
  induction h with
  | refl p => exact .refl _
  | trans _ _ hfirst hsecond => exact hfirst.trans hsecond
  | order perm => exact single (.order perm)
  | conjunct inner _ => exact single (.conjunct inner)
  | @disjunct before behind p q inner _ =>
    have hstep : Reordered (disjunction ((front ++ before) ++ p :: (behind ++ back)))
        (disjunction ((front ++ before) ++ q :: (behind ++ back))) := .disjunct inner
    simpa [disjuncts] using hstep
  | filter inner _ => exact single (.filter inner)

/-! ## Joined predicates -/

theorem and (hp : p.Reordered p') (hq : q.Reordered q') : (p.and q).Reordered (p'.and q') := by
  by_cases hpall : p = all
  · rw [hpall, hp.all_iff.1 hpall]
    exact hq
  · by_cases hqall : q = all
    · rw [hqall, hq.all_iff.1 hqall, and_all, and_all]
      exact hp
    · rw [and_eq hpall hqall, and_eq (hp.all_iff.not.1 hpall) (hq.all_iff.not.1 hqall)]
      have hleft := hp.among_conjuncts [] q.conjuncts
      have hright := hq.among_conjuncts p'.conjuncts []
      rw [List.append_nil, List.append_nil] at hright
      exact hleft.trans hright

theorem or (hp : p.Reordered p') (hq : q.Reordered q') : (p.or q).Reordered (p'.or q') := by
  rw [or_eq, or_eq]
  have hleft := hp.among_disjuncts [] q.disjuncts
  have hright := hq.among_disjuncts p'.disjuncts []
  rw [List.append_nil, List.append_nil] at hright
  exact hleft.trans hright

end Reordered

theorem conjuncts_and (p q : Predicate) : (p.and q).conjuncts = p.conjuncts ++ q.conjuncts := by
  by_cases hp : p = all
  · rw [hp]
    rfl
  · by_cases hq : q = all
    · rw [hq, and_all]
      exact (List.append_nil _).symm
    · rw [and_eq hp hq]
      rfl

theorem and_comm_reordered (p q : Predicate) : (p.and q).Reordered (q.and p) := by
  by_cases hp : p = all
  · rw [hp, and_all]
    exact .refl q
  · by_cases hq : q = all
    · rw [hq, and_all]
      exact .refl p
    · rw [and_eq hp hq, and_eq hq hp]
      exact .order List.perm_append_comm

/-- The last two of three operands change places. -/
theorem and_right_comm_reordered (p q r : Predicate) :
    ((p.and q).and r).Reordered ((p.and r).and q) := by
  by_cases hp : p = all
  · rw [hp]
    exact and_comm_reordered q r
  · by_cases hq : q = all
    · rw [hq, and_all, and_all]
      exact .refl _
    · by_cases hr : r = all
      · rw [hr, and_all, and_all]
        exact .refl _
      · have hpq : p.and q ≠ all := by rw [and_eq hp hq]; exact nofun
        have hpr : p.and r ≠ all := by rw [and_eq hp hr]; exact nofun
        rw [and_eq hpq hr, and_eq hpr hq, conjuncts_and, conjuncts_and, List.append_assoc,
          List.append_assoc]
        exact .order (List.perm_append_comm.append_left p.conjuncts)

end Criteria.Predicate
